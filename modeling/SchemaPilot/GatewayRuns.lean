import SchemaPilot.Gateway
import SchemaPilot.Runs

namespace SchemaPilot.GatewayRuns

open Runs Gateway

/-- How a call of the forwarder ends; only an `Error` brings a message. -/
inductive Outcome where
  | resolved
  | rejected (message : Option String)
  deriving DecidableEq

/-- The handler of one request: answered before it called the forwarder, suspended in
that call, about to resume from it, or answered after it. -/
inductive Progress where
  | refused (reply : Reply)
  | awaiting (input : ForwardWebhookInput)
  | settled (input : ForwardWebhookInput) (outcome : Outcome)
  | answered (input : ForwardWebhookInput) (outcome : Outcome) (reply : Reply)

structure Call where
  request : Request
  progress : Progress

/-- The store the handlers share, and every request so far in the order of arrival. -/
structure State where
  store : InMemoryIdempotencyStore
  calls : List Call

def initial : State := ⟨.empty, []⟩

inductive Action where
  | request (request : Request)
  | settle (i : Nat) (outcome : Outcome)
  | resume (i : Nat)

/-- The rest of the handler once its forward has settled. -/
def resume (store : InMemoryIdempotencyStore) (input : ForwardWebhookInput) :
    Outcome → Reply × InMemoryIdempotencyStore
  | .resolved => (⟨202, .accepted input.source input.idempotencyKey⟩, store.add input.idempotencyKey)
  | .rejected message =>
    (⟨502, .error "enqueue_failed" (message.getD "Failed to enqueue webhook")⟩, store)

variable (options : GatewayOptions)

def begin (store : InMemoryIdempotencyStore) (request : Request) : Call :=
  match handle options store request with
  | .replied reply => ⟨request, .refused reply⟩
  | .forwarding input => ⟨request, .awaiting input⟩

def step (s : State) : Action → Option State
  | .request request => some { s with calls := s.calls ++ [begin options s.store request] }
  | .settle i outcome =>
    match s.calls[i]? with
    | some ⟨request, .awaiting input⟩ =>
      some { s with calls := s.calls.set i ⟨request, .settled input outcome⟩ }
    | _ => none
  | .resume i =>
    match s.calls[i]? with
    | some ⟨request, .settled input outcome⟩ =>
      let done := resume s.store input outcome
      some ⟨done.2, s.calls.set i ⟨request, .answered input outcome done.1⟩⟩
    | _ => none

/-- The webhook a call has handed to the forwarder. -/
def Call.forwarded (c : Call) : Option ForwardWebhookInput :=
  match c.progress with
  | .refused _ => none
  | .awaiting input | .settled input _ | .answered input _ _ => some input

def Call.reply (c : Call) : Option Reply :=
  match c.progress with
  | .refused reply | .answered _ _ reply => some reply
  | .awaiting _ | .settled _ _ => none

/-- What a step can do: a handler begins, or one call moves to its next stage. -/
inductive Moves (s : State) : Action → State → Prop
  | request (request : Request) :
    Moves s (.request request) ⟨s.store, s.calls ++ [begin options s.store request]⟩
  | settle {i : Nat} {request : Request} {input : ForwardWebhookInput} (outcome : Outcome)
    (hi : s.calls[i]? = some ⟨request, .awaiting input⟩) :
    Moves s (.settle i outcome) ⟨s.store, s.calls.set i ⟨request, .settled input outcome⟩⟩
  | resume {i : Nat} {request : Request} {input : ForwardWebhookInput} {outcome : Outcome}
    (hi : s.calls[i]? = some ⟨request, .settled input outcome⟩) :
    Moves s (.resume i) ⟨(resume s.store input outcome).2,
      s.calls.set i ⟨request, .answered input outcome (resume s.store input outcome).1⟩⟩

theorem step_cases {s s' : State} {a : Action} (h : step options s a = some s') :
    Moves options s a s' := by
  cases a with
  | request request =>
    cases h
    exact .request request
  | settle i outcome =>
    rw [step] at h
    split at h
    · next hi =>
      cases h
      exact .settle outcome hi
    · cases h
  | resume i =>
    rw [step] at h
    split at h
    · next hi =>
      cases h
      exact .resume hi
    · cases h

theorem begin_forwarded {store : InMemoryIdempotencyStore} {request : Request}
    {input : ForwardWebhookInput} (h : (begin options store request).forwarded = some input) :
    handle options store request = .forwarding input := by
  rw [begin] at h
  cases hh : handle options store request with
  | replied reply =>
    rw [hh] at h
    cases h
  | forwarding input' =>
    rw [hh] at h
    exact congrArg Begun.forwarding (Option.some.inj h)

theorem begin_request (store : InMemoryIdempotencyStore) (request : Request) :
    (begin options store request).request = request := by
  rw [begin]
  cases handle options store request <;> rfl

theorem resume_status {store : InMemoryIdempotencyStore} {input : ForwardWebhookInput}
    {outcome : Outcome} (h : (resume store input outcome).1.status ≠ 202) :
    (resume store input outcome).2 = store := by
  cases outcome with
  | resolved => exact absurd rfl h
  | rejected message => rfl

section Calls

variable {α : Type} {l : List α} {i : Nat} {x y : α}

theorem forall_mem_set {P : α → Prop} (h : ∀ c ∈ l, P c) (hx : P x) : ∀ c ∈ l.set i x, P c := by
  intro c hc
  obtain hc | rfl := List.mem_or_eq_of_mem_set hc
  · exact h c hc
  · exact hx

/-- Replacing an element without a property by another one. -/
theorem exists_mem_set {P : α → Prop} (hi : l[i]? = some y) (hy : ¬P y) :
    (∃ c ∈ l.set i x, P c) ↔ P x ∨ ∃ c ∈ l, P c := by
  have hl : i < l.length := (List.getElem?_eq_some_iff.mp hi).1
  constructor
  · rintro ⟨c, hc, hP⟩
    obtain hc | rfl := List.mem_or_eq_of_mem_set hc
    · exact .inr ⟨c, hc, hP⟩
    · exact .inl hP
  · rintro (hP | ⟨c, hc, hP⟩)
    · exact ⟨x, List.mem_set hl x, hP⟩
    · obtain ⟨j, hj⟩ := List.mem_iff_getElem?.mp hc
      have hne : i ≠ j := by
        rintro rfl
        obtain rfl := Option.some.inj (hi.symm.trans hj)
        exact hy hP
      exact ⟨c, List.mem_iff_getElem?.mpr ⟨j, (List.getElem?_set_ne hne).trans hj⟩, hP⟩

/-- At most one place of a list has the property. -/
def AtMostOne (P : α → Prop) (l : List α) : Prop :=
  ∀ (i j : Nat) (a b : α), l[i]? = some a → l[j]? = some b → P a → P b → i = j

theorem AtMostOne.mono {P Q : α → Prop} (h : AtMostOne Q l) (hPQ : ∀ a, P a → Q a) :
    AtMostOne P l := by
  intro i j a b hi hj ha hb
  exact h i j a b hi hj (hPQ a ha) (hPQ b hb)

theorem AtMostOne.set {P : α → Prop} (h : AtMostOne P l) (hi : l[i]? = some y)
    (hxy : P x → P y) : AtMostOne P (l.set i x) := by
  have hold : ∀ (j : Nat) (a : α), (l.set i x)[j]? = some a → P a →
      ∃ b, l[j]? = some b ∧ P b := by
    intro j a hj ha
    by_cases hij : i = j
    · subst hij
      rw [List.getElem?_set_self (List.getElem?_eq_some_iff.mp hi).1] at hj
      cases hj
      exact ⟨y, hi, hxy ha⟩
    · rw [List.getElem?_set_ne hij] at hj
      exact ⟨a, hj, ha⟩
  intro j k a b hj hk ha hb
  obtain ⟨a', hj', ha'⟩ := hold j a hj ha
  obtain ⟨b', hk', hb'⟩ := hold k b hk hb
  exact h j k a' b' hj' hk' ha' hb'

theorem AtMostOne.concat {P : α → Prop} (h : AtMostOne P l) (hx : P x → ∀ c ∈ l, ¬P c) :
    AtMostOne P (l ++ [x]) := by
  intro j k a b hj hk ha hb
  rw [List.getElem?_append] at hj hk
  by_cases hjl : j < l.length <;> by_cases hkl : k < l.length
  · rw [if_pos hjl] at hj
    rw [if_pos hkl] at hk
    exact h j k a b hj hk ha hb
  · rw [if_pos hjl] at hj
    rw [if_neg hkl] at hk
    obtain ⟨-, rfl⟩ : k - l.length = 0 ∧ x = b := by simpa [List.getElem?_singleton] using hk
    exact absurd ha (hx hb a (List.mem_of_getElem? hj))
  · rw [if_neg hjl] at hj
    rw [if_pos hkl] at hk
    obtain ⟨-, rfl⟩ : j - l.length = 0 ∧ x = a := by simpa [List.getElem?_singleton] using hj
    exact absurd hb (hx ha b (List.mem_of_getElem? hk))
  · rw [if_neg hjl] at hj
    rw [if_neg hkl] at hk
    obtain ⟨hj0, -⟩ : j - l.length = 0 ∧ x = a := by simpa [List.getElem?_singleton] using hj
    obtain ⟨hk0, -⟩ : k - l.length = 0 ∧ x = b := by simpa [List.getElem?_singleton] using hk
    omega

/-- The element at a place after a replacement. -/
theorem getElem?_set_cases {j : Nat} {c : α} (h : (l.set i x)[j]? = some c) :
    j = i ∧ c = x ∨ l[j]? = some c := by
  by_cases hij : i = j
  · subst hij
    have hl : i < l.length := by simpa using (List.getElem?_eq_some_iff.mp h).1
    rw [List.getElem?_set_self hl] at h
    exact .inl ⟨rfl, (Option.some.inj h).symm⟩
  · exact .inr ((List.getElem?_set_ne hij).symm.trans h)

end Calls

/-- The handler has resumed from a successful forward with this key. -/
def Call.stored (c : Call) (key : String) : Prop :=
  ∃ input reply, c.progress = .answered input .resolved reply ∧ input.idempotencyKey = key

theorem begin_not_stored (store : InMemoryIdempotencyStore) (request : Request) (key : String) :
    ¬(begin options store request).stored key := by
  rintro ⟨input, reply, h, -⟩
  rw [begin] at h
  cases hh : handle options store request with
  | replied reply' =>
    rw [hh] at h
    cases h
  | forwarding input' =>
    rw [hh] at h
    cases h

structure RunInv (s : State) : Prop where
  genuine : ∀ c ∈ s.calls, ∀ input, c.forwarded = some input → Genuine options c.request input
  stored : ∀ key, key ∈ s.store ↔ ∃ c ∈ s.calls, c.stored key

theorem RunInv.initial : RunInv options initial where
  genuine := by
    intro c hc
    cases hc
  stored := by
    intro key
    simp [GatewayRuns.initial]

theorem RunInv.step {s s' : State} {a : Action} (hs : RunInv options s)
    (h : Moves options s a s') : RunInv options s' := by
  cases h with
  | request request =>
    constructor
    · apply forall_mem_concat hs.genuine
      intro input hf
      rw [begin_request]
      exact (handle_forwarding_inv options (begin_forwarded options hf)).1
    · intro key
      rw [hs.stored]
      simp [List.mem_append, or_and_right, exists_or, begin_not_stored]
  | settle outcome hi =>
    constructor
    · apply forall_mem_set hs.genuine
      exact fun input hf => hs.genuine _ (List.mem_of_getElem? hi) input hf
    · intro key
      rw [hs.stored, exists_mem_set hi (by rintro ⟨input, reply, h, -⟩; cases h)]
      refine (or_iff_right ?_).symm
      rintro ⟨input, reply, h, -⟩
      cases h
  | @resume i request input outcome hi =>
    constructor
    · apply forall_mem_set hs.genuine
      exact fun input hf => hs.genuine _ (List.mem_of_getElem? hi) input hf
    · intro key
      rw [exists_mem_set hi (by rintro ⟨input, reply, h, -⟩; cases h), ← hs.stored]
      cases outcome with
      | resolved =>
        simp only [resume, InMemoryIdempotencyStore.mem_add]
        refine or_congr ⟨?_, ?_⟩ Iff.rfl
        · rintro rfl
          exact ⟨input, _, rfl, rfl⟩
        · rintro ⟨input', reply, h, rfl⟩
          cases h
          rfl
      | rejected message =>
        refine (or_iff_right ?_).symm
        rintro ⟨input', reply, h, -⟩
        cases h

theorem runInv {s : State} (h : Reachable (step options) always initial s) : RunInv options s :=
  h.invariant (RunInv.initial options) fun _ _ _ hI _ hs => hI.step options (step_cases options hs)

theorem mem_store_step {s s' : State} {a : Action} (h : Moves options s a s') {key : String}
    (hk : key ∈ s.store) : key ∈ s'.store := by
  cases h with
  | request | settle => exact hk
  | resume hi =>
    rename_i outcome
    cases outcome with
    | resolved => exact (InMemoryIdempotencyStore.mem_add _ _ _).mpr (.inr hk)
    | rejected message => exact hk

/-- No request that arrives after its key was stored is forwarded, however the run goes on. -/
theorem late_not_forwarded {s t : State} {key : String} (hk : key ∈ s.store)
    (h : Reachable (step options) always s t) {i : Nat} {c : Call} (hl : s.calls.length ≤ i)
    (hi : t.calls[i]? = some c) (hc : c.request.idempotencyKey = some key) :
    c.forwarded = none := by
  have hI : key ∈ t.store ∧ ∀ j c, s.calls.length ≤ j → t.calls[j]? = some c →
      c.request.idempotencyKey = some key → c.forwarded = none := by
    refine h.invariant (I := fun t => key ∈ t.store ∧ ∀ j c, s.calls.length ≤ j →
      t.calls[j]? = some c → c.request.idempotencyKey = some key → c.forwarded = none) ?_ ?_
    · refine ⟨hk, fun j c hj hjc _ => ?_⟩
      rw [List.getElem?_eq_none hj] at hjc
      cases hjc
    · intro t a t' ht _ hstep
      obtain ⟨hstore, hlate⟩ := ht
      have hm := step_cases options hstep
      refine ⟨mem_store_step options hm hstore, fun j c hj hjc hkey => ?_⟩
      cases hm with
      | request request =>
        rw [List.getElem?_append] at hjc
        split at hjc
        · exact hlate j c hj hjc hkey
        · obtain ⟨-, rfl⟩ : j - t.calls.length = 0 ∧ begin options t.store request = c := by
            simpa [List.getElem?_singleton] using hjc
          cases hf : (begin options t.store request).forwarded with
          | none => rfl
          | some input =>
            obtain ⟨hg, hn⟩ := handle_forwarding_inv options (begin_forwarded options hf)
            rw [begin_request] at hkey
            obtain rfl := Option.some.inj (hkey.symm.trans hg.key)
            exact absurd hstore hn
      | settle outcome hi | resume hi =>
        obtain ⟨rfl, rfl⟩ | hjc := getElem?_set_cases hjc
        · exact absurd (hlate _ _ hj hi hkey) (by simp [Call.forwarded])
        · exact hlate j c hj hjc hkey
  exact hI.2 i c hl hi hc

/-- The handler that an action is a step of. -/
def Action.handler (s : State) : Action → Nat
  | .request _ => s.calls.length
  | .settle i _ | .resume i => i

theorem reply_step {s s' : State} {a : Action} (h : Moves options s a s') {i : Nat} {c : Call}
    {reply : Reply} (hi : s.calls[i]? = some c) (hr : c.reply = some reply) :
    ∃ c', s'.calls[i]? = some c' ∧ c'.reply = some reply := by
  have hset : ∀ {j : Nat} {x y : Call}, s.calls[j]? = some y → y.reply = none →
      ∃ c', (s.calls.set j x)[i]? = some c' ∧ c'.reply = some reply := by
    intro j x y hj hy
    by_cases hji : j = i
    · subst hji
      obtain rfl := Option.some.inj (hi.symm.trans hj)
      exact absurd (hr.symm.trans hy) (by simp)
    · exact ⟨c, (List.getElem?_set_ne hji).trans hi, hr⟩
  cases h with
  | request request =>
    refine ⟨c, ?_, hr⟩
    rw [List.getElem?_append_left (List.getElem?_eq_some_iff.mp hi).1]
    exact hi
  | settle outcome hj => exact hset hj rfl
  | resume hj => exact hset hj rfl

theorem reply_final {s t : State} (h : Reachable (step options) always s t) {i : Nat} {c : Call}
    {reply : Reply} (hi : s.calls[i]? = some c) (hr : c.reply = some reply) :
    ∃ c', t.calls[i]? = some c' ∧ c'.reply = some reply := by
  refine h.invariant (I := fun t => ∃ c', t.calls[i]? = some c' ∧ c'.reply = some reply)
    ⟨c, hi, hr⟩ ?_
  rintro t a t' ⟨c', hi', hr'⟩ _ hstep
  exact reply_step options (step_cases options hstep) hi' hr'

/-- A handler that is answered with another status than 202 leaves the store as it was,
at this step and at every other of its own. -/
theorem store_step {s s' t : State} {a : Action} (hs : Moves options s a s')
    (h : Reachable (step options) always s' t) {c : Call} {reply : Reply}
    (hi : t.calls[a.handler s]? = some c) (hr : c.reply = some reply) (hne : reply.status ≠ 202) :
    s'.store = s.store := by
  cases hs with
  | request | settle => rfl
  | @resume i request input outcome hj =>
    have hl : i < s.calls.length := (List.getElem?_eq_some_iff.mp hj).1
    obtain ⟨c', hi', hr'⟩ := reply_final options h (List.getElem?_set_self hl) rfl
    obtain rfl := Option.some.inj (hi'.symm.trans hi)
    obtain rfl := Option.some.inj (hr'.symm.trans hr)
    exact resume_status hne

/-- An enqueue failure is reported by a handler that had forwarded its webhook. -/
def Answered (c : Call) : Prop :=
  ∀ reply, c.reply = some reply → reply.status = 502 → ∃ input, c.forwarded = some input

theorem answered {s : State} (h : Reachable (step options) always initial s) :
    ∀ c ∈ s.calls, Answered c := by
  refine h.invariant (I := fun s => ∀ c ∈ s.calls, Answered c) (fun c hc => by cases hc) ?_
  intro s a s' hI _ hstep
  cases step_cases options hstep with
  | request request =>
    apply forall_mem_concat hI
    intro reply hr hstatus
    unfold begin at hr ⊢
    cases hh : handle options s.store request with
    | replied reply' =>
      rw [hh] at hr
      cases hr
      have hm := handle_replied_status options hh
      rw [hstatus] at hm
      exact absurd hm (by decide)
    | forwarding input => exact ⟨input, rfl⟩
  | settle outcome hi => exact forall_mem_set hI fun _ _ _ => ⟨_, rfl⟩
  | resume hi => exact forall_mem_set hI fun _ _ _ => ⟨_, rfl⟩

/-- What the gateway keeps over every run: forwards are of genuine webhooks, the store
holds the keys of the accepted ones, and every other answer leaves it as it was. -/
theorem forwards_and_store {s : State} (h : Reachable (step options) always initial s) :
    (∀ c ∈ s.calls, ∀ input, c.forwarded = some input →
      input.idempotencyKey ≠ "" ∧ c.request.idempotencyKey = some input.idempotencyKey ∧
      (∃ signatureHeader bytes, c.request.signatureHeader = some signatureHeader ∧
        c.request.rawBody.hashed = some bytes ∧
        NodeBuffer.fromHex signatureHeader =
          (options.hmacSha256 options.hmacSecret bytes).bytes) ∧
      ∃ members, JsonReader.parse c.request.rawBody.decoded = some (.object members)) ∧
    (∀ key, key ∈ s.store ↔ ∃ c ∈ s.calls, ∃ input reply,
      c.progress = .answered input .resolved reply ∧ input.idempotencyKey = key) ∧
    (∀ a s' t c reply, step options s a = some s' → Reachable (step options) always s' t →
      t.calls[a.handler s]? = some c → c.reply = some reply → reply.status ≠ 202 →
      s'.store = s.store) ∧
    (∀ c ∈ s.calls, ∀ reply key, c.reply = some reply → reply.status = 502 →
      c.request.idempotencyKey = some key → key ∉ s.store →
      ∃ input, handle options s.store c.request = .forwarding input) ∧
    (∀ t i c key, key ∈ s.store → Reachable (step options) always s t → s.calls.length ≤ i →
      t.calls[i]? = some c → c.request.idempotencyKey = some key → c.forwarded = none) := by
  have hI := runInv options h
  refine ⟨?_, hI.stored, ?_, ?_, ?_⟩
  · intro c hc input hf
    have hg := hI.genuine c hc input hf
    obtain ⟨members, hm⟩ := hg.object
    exact ⟨idempotencyKey_ne hg.key, hg.key, hg.authentic, members, hm ▸ hg.payload⟩
  · intro a s' t c reply hs ht hi hr hne
    exact store_step options (step_cases options hs) ht hi hr hne
  · intro c hc reply key hr hstatus hk hn
    obtain ⟨input, hf⟩ := answered options h c hc reply hr hstatus
    have hg := hI.genuine c hc input hf
    obtain rfl := Option.some.inj (hk.symm.trans hg.key)
    exact ⟨input, handle_of_genuine options hg hn⟩
  · intro t i c key hk ht hl hi hc
    exact late_not_forwarded options hk ht hl hi hc

/-- The webhook of the tests with its own signature. -/
def signedRequest : Request :=
  testRequest (String.ofList ("sha256=".toList ++ testSignature))

def signedInput : ForwardWebhookInput := ⟨"shop", .object [], "idem-1"⟩

theorem signatureHeader_signed : signedRequest.signatureHeader = some testSignature := by
  have h : getSignature signedRequest.headers =
      some (String.ofList ("sha256=".toList ++ testSignature)) := rfl
  rw [Request.signatureHeader, h, Option.map_some, String.toList_ofList]
  rfl

theorem genuine_signed : Genuine testOptions signedRequest signedInput where
  source := rfl
  key := rfl
  authentic := ⟨testSignature, [0x7b, 0x7d], signatureHeader_signed, rfl, rfl⟩
  payload := rfl
  object := ⟨[], rfl⟩

theorem step_signed (s : State) (h : "idem-1" ∉ s.store) :
    step testOptions s (.request signedRequest) =
      some ⟨s.store, s.calls ++ [⟨signedRequest, .awaiting signedInput⟩]⟩ := by
  rw [step, begin, handle_of_genuine testOptions genuine_signed h]

/-- One webhook, forwarded and accepted. -/
def acceptedState : State where
  store := .add .empty "idem-1"
  calls := [⟨signedRequest, .answered signedInput .resolved ⟨202, .accepted "shop" "idem-1"⟩⟩]

theorem mem_acceptedState : "idem-1" ∈ acceptedState.store :=
  (InMemoryIdempotencyStore.mem_add _ _ _).mpr (.inl rfl)

theorem reachable_acceptedState : Reachable (step testOptions) always initial acceptedState := by
  have h1 : Reachable (step testOptions) always initial _ :=
    Reachable.start.step trivial (step_signed initial (InMemoryIdempotencyStore.not_mem_empty _))
  have h2 := h1.step (a := .settle 0 .resolved) trivial rfl
  exact h2.step (a := .resume 0) trivial rfl

theorem forwards_and_store_accepted :
    (∃ c ∈ acceptedState.calls, ∃ input reply, c.progress = .answered input .resolved reply ∧
      input.idempotencyKey = "idem-1") ∧
    ∀ t i c, Reachable (step testOptions) always acceptedState t → 1 ≤ i →
      t.calls[i]? = some c → c.request.idempotencyKey = some "idem-1" → c.forwarded = none := by
  obtain ⟨-, hstored, -, -, hlate⟩ := forwards_and_store testOptions reachable_acceptedState
  exact ⟨(hstored "idem-1").mp mem_acceptedState,
    fun t i c ht hi hc hk => hlate t i c "idem-1" mem_acceptedState ht hi hc hk⟩

section Duplicates

/-- The forward of a call carries the key and has resolved. -/
def Progress.succeeded (key : String) : Progress → Prop
  | .settled input .resolved | .answered input .resolved _ => input.idempotencyKey = key
  | .refused _ | .awaiting _ | .settled _ (.rejected _) | .answered _ (.rejected _) _ => False

/-- The forward of a call carries the key and may still add it to the store. -/
def Progress.inFlight (key : String) : Progress → Prop
  | .awaiting input | .settled input .resolved => input.idempotencyKey = key
  | .refused _ | .settled _ (.rejected _) | .answered _ _ _ => False

/-- The forward of a call carries the key and has not failed. -/
def Progress.holds (key : String) : Progress → Prop
  | .awaiting input | .settled input .resolved | .answered input .resolved _ =>
    input.idempotencyKey = key
  | .refused _ | .settled _ (.rejected _) | .answered _ (.rejected _) _ => False

/-- No webhook is forwarded while a forward with its key is in flight. -/
def soleForward (s : State) : Action → Prop
  | .request request => ∀ input, handle options s.store request = .forwarding input →
      ∀ c ∈ s.calls, ¬c.progress.inFlight input.idempotencyKey
  | .settle _ _ | .resume _ => True

theorem soleForward_of_idle {options : GatewayOptions} {s : State} {a : Action}
    (h : ∀ key, ∀ c ∈ s.calls, ¬c.progress.inFlight key) : soleForward options s a := by
  cases a with
  | request request => exact fun input _ => h input.idempotencyKey
  | settle i outcome | resume i => trivial

theorem Progress.holds_of_succeeded {key : String} {p : Progress} (h : p.succeeded key) :
    p.holds key := by
  cases p with
  | refused | awaiting => cases h
  | settled input outcome | answered input outcome => cases outcome <;> exact h

/-- A forward that has not failed is in flight or has put its key in the store. -/
theorem inFlight_or_stored {key : String} {c : Call} (h : c.progress.holds key) :
    c.progress.inFlight key ∨ c.stored key := by
  rw [Call.stored]
  cases hp : c.progress with
  | refused reply =>
    rw [hp] at h
    cases h
  | awaiting input =>
    rw [hp] at h
    exact .inl h
  | settled input outcome =>
    rw [hp] at h
    cases outcome with
    | resolved => exact .inl h
    | rejected message => cases h
  | answered input outcome reply =>
    rw [hp] at h
    cases outcome with
    | resolved => exact .inr ⟨input, reply, rfl, h⟩
    | rejected message => cases h

theorem begin_holds {store : InMemoryIdempotencyStore} {request : Request} {key : String}
    (h : (begin options store request).progress.holds key) :
    ∃ input, handle options store request = .forwarding input ∧ input.idempotencyKey = key := by
  rw [begin] at h
  cases hh : handle options store request with
  | replied reply =>
    rw [hh] at h
    cases h
  | forwarding input =>
    rw [hh] at h
    exact ⟨input, rfl, h⟩

/-- Among the forwards with one key at most one has not failed. -/
theorem holds_atMostOne {s : State} (h : Reachable (step options) (soleForward options) initial s)
    (key : String) : AtMostOne (fun c => c.progress.holds key) s.calls := by
  have hI : RunInv options s ∧ AtMostOne (fun c => c.progress.holds key) s.calls := by
    refine h.invariant (I := fun s => RunInv options s ∧
      AtMostOne (fun c => c.progress.holds key) s.calls) ?_ ?_
    · refine ⟨RunInv.initial options, fun i j a b hi => ?_⟩
      cases hi
    · rintro s a s' ⟨hinv, hone⟩ hok hstep
      have hm := step_cases options hstep
      refine ⟨hinv.step options hm, ?_⟩
      cases hm with
      | request request =>
        apply hone.concat
        intro hb c hc hh
        obtain ⟨input, hf, rfl⟩ := begin_holds options hb
        obtain hfl | hst := inFlight_or_stored hh
        · exact hok input hf c hc hfl
        · have hn := (handle_forwarding_inv options hf).2
          exact hn ((hinv.stored _).mpr ⟨c, hc, hst⟩)
      | settle outcome hi =>
        apply hone.set hi
        intro hh
        cases outcome with
        | resolved => exact hh
        | rejected message => cases hh
      | resume hi =>
        rename_i outcome
        apply hone.set hi
        intro hh
        cases outcome <;> exact hh
  exact hI.2

/-- In a run where no webhook is forwarded while a forward with its key is in flight,
every key is forwarded successfully at most once. -/
theorem forwarded_at_most_once {s : State}
    (h : Reachable (step options) (soleForward options) initial s) (key : String) :
    AtMostOne (fun c => c.progress.succeeded key) s.calls :=
  (holds_atMostOne options h key).mono fun _ hc => Progress.holds_of_succeeded hc

end Duplicates

/-- A webhook whose forward fails, its retry, which is accepted, and one more retry. -/
theorem forwarded_at_most_once_retries :
    ∃ s, Reachable (step testOptions) (soleForward testOptions) initial s ∧
      s.calls.map (fun c => (c.request.idempotencyKey, c.reply.map Reply.status)) =
        [(some "idem-1", some 502), (some "idem-1", some 202), (some "idem-1", some 409)] ∧
      AtMostOne (fun c => c.progress.succeeded "idem-1") s.calls := by
  have hn := InMemoryIdempotencyStore.not_mem_empty "idem-1"
  have h1 : Reachable (step testOptions) (soleForward testOptions) initial _ :=
    Reachable.start.step (soleForward_of_idle fun _ => List.forall_mem_nil _) (step_signed initial hn)
  have h2 := (h1.step (a := Action.settle 0 (.rejected none)) trivial rfl).step (a := Action.resume 0) trivial rfl
  have h3 := h2.step (soleForward_of_idle fun _ => List.forall_mem_singleton.mpr id) (step_signed _ hn)
  have h4 := (h3.step (a := Action.settle 1 .resolved) trivial rfl).step (a := Action.resume 1) trivial rfl
  have h5 := h4.step (a := .request signedRequest)
    (soleForward_of_idle fun _ => List.forall_mem_cons.mpr ⟨id, List.forall_mem_singleton.mpr id⟩) rfl
  exact ⟨_, h5, rfl, forwarded_at_most_once testOptions h5 "idem-1"⟩

/-- The same webhook twice, the second one before the first forward has settled. -/
theorem forwarded_twice : ¬∀ (options : GatewayOptions) (s : State) (key : String),
    Reachable (step options) always initial s →
      AtMostOne (fun c => c.progress.succeeded key) s.calls := by
  intro h
  have hn := InMemoryIdempotencyStore.not_mem_empty "idem-1"
  have h1 : Reachable (step testOptions) always initial _ :=
    (Reachable.start.step trivial (step_signed initial hn)).step trivial (step_signed _ hn)
  have h2 := h1.step (a := .settle 0 .resolved) trivial rfl
  have h3 := h2.step (a := .settle 1 .resolved) trivial rfl
  exact absurd (h testOptions _ "idem-1" h3 0 1 _ _ rfl rfl rfl rfl) (by decide)

end SchemaPilot.GatewayRuns
