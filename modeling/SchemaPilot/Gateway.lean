import SchemaPilot.JsonReader
import SchemaPilot.NodeBuffer
import Mathlib.Data.List.Nodup

namespace SchemaPilot.Gateway

open JsonReader NodeBuffer

/-- A header as Node hands it over; one that may come several times is a list. -/
inductive HeaderValue where
  | one (value : String)
  | many (values : List String)

abbrev Headers := List (String × HeaderValue)

/-- The body Fastify attaches to a request: the bytes of a JSON request, the text of a
plain one, nothing for a request without content. -/
inductive RawBody where
  | buffer (bytes : Bytes)
  | text (s : String)
  | undefined

structure Request where
  source : String
  headers : Headers
  rawBody : RawBody

structure Digest where
  bytes : Bytes
  length_eq : bytes.length = 32

/-- What the gateway takes from its platform and its options: HMAC-SHA256 and the message
of the `SyntaxError` that `JSON.parse` throws at a text. -/
structure GatewayOptions where
  hmacSha256 : String → Bytes → Digest
  syntaxError : List Char → String
  hmacSecret : String

structure InMemoryIdempotencyStore where
  keys : List String
  nodup : keys.Nodup

namespace InMemoryIdempotencyStore

def empty : InMemoryIdempotencyStore := ⟨[], List.nodup_nil⟩

def has (store : InMemoryIdempotencyStore) (key : String) : Bool := key ∈ store.keys

def add (store : InMemoryIdempotencyStore) (key : String) : InMemoryIdempotencyStore :=
  ⟨store.keys.insert key, store.nodup.insert⟩

instance : Membership String InMemoryIdempotencyStore := ⟨fun store key => key ∈ store.keys⟩

@[simp] theorem has_iff (store : InMemoryIdempotencyStore) (key : String) :
    store.has key = true ↔ key ∈ store := decide_eq_true_iff

@[simp] theorem not_mem_empty (key : String) : key ∉ empty := List.not_mem_nil

@[simp] theorem mem_add (store : InMemoryIdempotencyStore) (key key' : String) :
    key' ∈ store.add key ↔ key' = key ∨ key' ∈ store := List.mem_insert_iff

end InMemoryIdempotencyStore

inductive ReplyBody where
  | error (error message : String)
  | accepted (source idempotencyKey : String)
  /-- Fastify's own answer to a handler that throws. -/
  | thrown
  deriving DecidableEq

structure Reply where
  status : Nat
  body : ReplyBody
  deriving DecidableEq

structure ForwardWebhookInput where
  source : String
  payload : Value
  idempotencyKey : String

def normalizeHeader : Option HeaderValue → Option String
  | some (.many values) => values.head?
  | some (.one value) => some value
  | none => none

def constantTimeEquals (expectedHex providedHex : List Char) : Bool :=
  let expected := fromHex expectedHex
  let provided := fromHex providedHex
  if expected.length ≠ provided.length then false else expected == provided

/-- A value that is neither `undefined` nor the empty string. -/
def truthy {α : Type} (value : Option (List α)) : Option (List α) := value.filter (! ·.isEmpty)

def extractSignature (header : Option (List Char)) : Option (List Char) :=
  (truthy header).map fun h => if "sha256=".toList.isPrefixOf h then h.drop 7 else h

def getSignature (headers : Headers) : Option String :=
  normalizeHeader (headers.lookup "x-signature") <|>
  normalizeHeader (headers.lookup "x-hub-signature-256") <|>
  normalizeHeader (headers.lookup "x-webhook-signature")

def getIdempotencyKey (headers : Headers) : Option String :=
  normalizeHeader (headers.lookup "idempotency-key") <|>
  normalizeHeader (headers.lookup "x-idempotency-key")

/-- The bytes `update` hashes; it throws at a body that is not there. -/
def RawBody.hashed : RawBody → Option Bytes
  | .buffer bytes => some bytes
  | .text s => some (s.toList.flatMap String.utf8EncodeChar)
  | .undefined => none

/-- `toString("utf8")` of a body; a string is its own. -/
def RawBody.decoded : RawBody → List Char
  | .buffer bytes => toUtf8 bytes
  | .text s => s.toList
  | .undefined => []

def validateBodyShape : Value → Except String Unit
  | .object _ => .ok ()
  | .null | .bool _ | .number _ | .string _ | .array _ =>
    .error "webhook payload must be a JSON object"

/-- The signature a request supplies, when it supplies one. -/
def Request.signatureHeader (request : Request) : Option (List Char) :=
  truthy (extractSignature ((getSignature request.headers).map String.toList))

def Request.idempotencyKey (request : Request) : Option String :=
  (getIdempotencyKey request.headers).filter (· ≠ "")

/-- How far a handler gets before its first `await`. -/
inductive Begun where
  | replied (reply : Reply)
  | forwarding (input : ForwardWebhookInput)

variable (options : GatewayOptions)

def parseBody (rawBody : RawBody) : Except String Value :=
  match parse rawBody.decoded with
  | none => .error (options.syntaxError rawBody.decoded)
  | some payload => (validateBodyShape payload).map fun _ => payload

def handle (store : InMemoryIdempotencyStore) (request : Request) : Begun :=
  match request.signatureHeader with
  | none => .replied ⟨401, .error "missing_signature" "Missing webhook signature"⟩
  | some signatureHeader =>
    match request.idempotencyKey with
    | none => .replied ⟨400, .error "missing_idempotency_key" "Missing idempotency key"⟩
    | some idempotencyKey =>
      if store.has idempotencyKey then
        .replied ⟨409, .error "duplicate_idempotency_key" "Duplicate idempotency key"⟩
      else
        match request.rawBody.hashed with
        | none => .replied ⟨500, .thrown⟩
        | some bytes =>
          let expected := toHex (options.hmacSha256 options.hmacSecret bytes).bytes
          if constantTimeEquals expected signatureHeader then
            match parseBody options request.rawBody with
            | .error message => .replied ⟨400, .error "malformed_json" message⟩
            | .ok payload => .forwarding ⟨request.source, payload, idempotencyKey⟩
          else .replied ⟨403, .error "invalid_signature" "Invalid webhook signature"⟩

theorem constantTimeEquals_toHex (expected : Bytes) (providedHex : List Char) :
    constantTimeEquals (toHex expected) providedHex = true ↔ fromHex providedHex = expected := by
  simp only [constantTimeEquals, fromHex_toHex]
  by_cases hl : expected.length = (fromHex providedHex).length
  · rw [if_neg (not_not_intro hl), beq_iff_eq]
    exact eq_comm
  · rw [if_pos hl]
    apply iff_of_false Bool.false_ne_true
    rintro rfl
    exact hl rfl

theorem validateBodyShape_eq_ok (value : Value) :
    validateBodyShape value = .ok () ↔ ∃ members, value = .object members := by
  cases value <;> simp [validateBodyShape]

theorem parseBody_eq_ok (rawBody : RawBody) (payload : Value) :
    parseBody options rawBody = .ok payload ↔
      parse rawBody.decoded = some payload ∧ ∃ members, payload = .object members := by
  rw [parseBody]
  cases parse rawBody.decoded with
  | none => simp
  | some value =>
    rw [Option.some.injEq, ← validateBodyShape_eq_ok]
    dsimp only
    cases hv : validateBodyShape value with
    | error message =>
      refine iff_of_false (fun h => by cases h) ?_
      rintro ⟨rfl, h⟩
      cases hv.symm.trans h
    | ok u =>
      refine ⟨fun h => ?_, fun h => congrArg Except.ok h.1⟩
      obtain rfl := Except.ok.inj h
      exact ⟨rfl, hv⟩

theorem idempotencyKey_ne {request : Request} {key : String}
    (h : request.idempotencyKey = some key) : key ≠ "" := by
  have hk := (Option.filter_eq_some_iff.mp h).2
  exact of_decide_eq_true hk

/-- The supplied signature decodes to the HMAC of the body. -/
def Authentic (request : Request) : Prop :=
  ∃ signatureHeader bytes, request.signatureHeader = some signatureHeader ∧
    request.rawBody.hashed = some bytes ∧
    fromHex signatureHeader = (options.hmacSha256 options.hmacSecret bytes).bytes

/-- What a request carries that the gateway may forward as a webhook. -/
structure Genuine (request : Request) (input : ForwardWebhookInput) : Prop where
  source : input.source = request.source
  key : request.idempotencyKey = some input.idempotencyKey
  authentic : Authentic options request
  payload : parse request.rawBody.decoded = some input.payload
  object : ∃ members, input.payload = .object members

/-- The answer to a request whose signature is not that of its body. -/
def refusal (store : InMemoryIdempotencyStore) (request : Request) : Reply :=
  match request.signatureHeader, request.idempotencyKey with
  | none, _ => ⟨401, .error "missing_signature" "Missing webhook signature"⟩
  | some _, none => ⟨400, .error "missing_idempotency_key" "Missing idempotency key"⟩
  | some _, some key =>
    if store.has key then ⟨409, .error "duplicate_idempotency_key" "Duplicate idempotency key"⟩
    else match request.rawBody.hashed with
      | none => ⟨500, .thrown⟩
      | some _ => ⟨403, .error "invalid_signature" "Invalid webhook signature"⟩

theorem handle_of_not_authentic {request : Request} (h : ¬Authentic options request)
    (store : InMemoryIdempotencyStore) :
    handle options store request = .replied (refusal store request) := by
  unfold handle refusal
  cases hs : request.signatureHeader with
  | none => rfl
  | some signatureHeader =>
    cases request.idempotencyKey with
    | none => rfl
    | some key =>
      dsimp only
      split
      · rfl
      · cases hb : request.rawBody.hashed with
        | none => rfl
        | some bytes =>
          have hne : ¬constantTimeEquals
              (toHex (options.hmacSha256 options.hmacSecret bytes).bytes) signatureHeader = true :=
            fun he => h ⟨signatureHeader, bytes, hs, hb, (constantTimeEquals_toHex _ _).mp he⟩
          dsimp only
          rw [if_neg hne]

theorem handle_of_authentic {request : Request} (h : Authentic options request)
    (store : InMemoryIdempotencyStore) {key : String} (hk : request.idempotencyKey = some key)
    (hn : key ∉ store) :
    handle options store request =
      match parseBody options request.rawBody with
      | .error message => .replied ⟨400, .error "malformed_json" message⟩
      | .ok payload => .forwarding ⟨request.source, payload, key⟩ := by
  obtain ⟨signatureHeader, bytes, hs, hb, hd⟩ := h
  have hq : constantTimeEquals (toHex (options.hmacSha256 options.hmacSecret bytes).bytes)
      signatureHeader = true := (constantTimeEquals_toHex _ _).mpr hd
  have hhas : ¬store.has key = true := fun hh => hn ((store.has_iff key).mp hh)
  simp only [handle, hs, hk, hb, hq, if_neg hhas, if_true]

/-- Every request that is forwarded came through all the checks. -/
theorem handle_forwarding_inv {store : InMemoryIdempotencyStore} {request : Request}
    {input : ForwardWebhookInput} (h : handle options store request = .forwarding input) :
    Genuine options request input ∧ input.idempotencyKey ∉ store := by
  by_cases ha : Authentic options request
  · cases hk : request.idempotencyKey with
    | none =>
      obtain ⟨signatureHeader, bytes, hs, -, -⟩ := ha
      simp only [handle, hs, hk] at h
      cases h
    | some key =>
      by_cases hm : key ∈ store
      · obtain ⟨signatureHeader, bytes, hs, -, -⟩ := ha
        simp only [handle, hs, hk, (store.has_iff key).mpr hm, if_true] at h
        cases h
      · rw [handle_of_authentic options ha store hk hm] at h
        cases hp : parseBody options request.rawBody with
        | error message =>
          rw [hp] at h
          cases h
        | ok payload =>
          rw [hp] at h
          obtain rfl := Begun.forwarding.inj h
          obtain ⟨hpayload, hobject⟩ := (parseBody_eq_ok options _ _).mp hp
          exact ⟨⟨rfl, hk, ha, hpayload, hobject⟩, hm⟩
  · rw [handle_of_not_authentic options ha] at h
    cases h

theorem handle_of_genuine {store : InMemoryIdempotencyStore} {request : Request}
    {input : ForwardWebhookInput} (h : Genuine options request input)
    (hn : input.idempotencyKey ∉ store) : handle options store request = .forwarding input := by
  rw [handle_of_authentic options h.authentic store h.key hn,
    (parseBody_eq_ok options _ _).mpr ⟨h.payload, h.object⟩]
  dsimp only
  rw [← h.source]

/-- A handler that replies before its first `await` neither accepts nor reports an enqueue failure. -/
theorem handle_replied_status {store : InMemoryIdempotencyStore} {request : Request}
    {reply : Reply} (h : handle options store request = .replied reply) :
    reply.status ∈ [401, 400, 409, 500, 403] := by
  rw [handle] at h
  cases hs : request.signatureHeader with
  | none =>
    simp only [hs, Begun.replied.injEq] at h
    simp [← h]
  | some signatureHeader =>
    simp only [hs] at h
    cases hk : request.idempotencyKey with
    | none =>
      simp only [hk, Begun.replied.injEq] at h
      simp [← h]
    | some key =>
      simp only [hk] at h
      split at h
      · simp [← Begun.replied.inj h]
      · split at h
        · simp [← Begun.replied.inj h]
        · split at h
          · split at h
            · simp [← Begun.replied.inj h]
            · cases h
          · simp [← Begun.replied.inj h]

theorem refusal_eq_iff (store store' : InMemoryIdempotencyStore) (request : Request) :
    refusal store request = refusal store' request ↔
      request.signatureHeader = none ∨ request.idempotencyKey = none ∨
        ∃ key, request.idempotencyKey = some key ∧ (key ∈ store ↔ key ∈ store') := by
  unfold refusal
  cases request.signatureHeader with
  | none => simp
  | some signatureHeader =>
    cases request.idempotencyKey with
    | none => simp
    | some key =>
      have h409 : ∀ body : Option Bytes, (⟨409, .error "duplicate_idempotency_key"
          "Duplicate idempotency key"⟩ : Reply) ≠ match body with
          | none => ⟨500, .thrown⟩
          | some _ => ⟨403, .error "invalid_signature" "Invalid webhook signature"⟩ := by
        intro body
        cases body <;> simp
      by_cases h : key ∈ store <;> by_cases h' : key ∈ store' <;>
        simp [h, h', h409, (h409 _).symm]

/-- Two stores answer a request without its body's signature alike exactly when the
request lacks a signature or a key, or they agree on its key. -/
theorem handle_not_authentic_eq_iff {request : Request} (h : ¬Authentic options request)
    (store store' : InMemoryIdempotencyStore) :
    ∃ reply reply', handle options store request = .replied reply ∧
      handle options store' request = .replied reply' ∧
      (reply = reply' ↔ request.signatureHeader = none ∨ request.idempotencyKey = none ∨
        ∃ key, request.idempotencyKey = some key ∧ (key ∈ store ↔ key ∈ store')) := by
  refine ⟨refusal store request, refusal store' request, ?_, ?_, refusal_eq_iff _ _ _⟩
  · exact handle_of_not_authentic options h store
  · exact handle_of_not_authentic options h store'

/-- The HMAC-SHA256 of an empty object under the secret of the tests. -/
def testSignature : List Char :=
  "2f59040b63b7200598444239da2c9a4f3abc5c434259b23126d72514dab8cd09".toList

/-- The gateway of the tests, with the HMAC of one body under their secret. -/
def testOptions : GatewayOptions where
  hmacSha256 secret bytes :=
    if secret = "test-secret" ∧ bytes = [0x7b, 0x7d] then
      ⟨fromHex testSignature, rfl⟩
    else ⟨List.replicate 32 0, rfl⟩
  syntaxError _ := "Unexpected end of JSON input"
  hmacSecret := "test-secret"

/-- A webhook with an empty object as its body. -/
def testRequest (signature : String) : Request where
  source := "shop"
  headers := [("x-signature", .one signature), ("x-idempotency-key", .one "idem-1")]
  rawBody := .buffer [0x7b, 0x7d]

theorem not_authentic_deadbeef : ¬Authentic testOptions (testRequest "deadbeef") := by
  rintro ⟨signatureHeader, bytes, hs, -, hd⟩
  obtain rfl : "deadbeef".toList = signatureHeader := Option.some.inj hs
  have hl := congrArg List.length hd
  rw [Digest.length_eq] at hl
  exact absurd hl (by decide)

theorem handle_not_authentic_deadbeef :
    ∃ reply reply', handle testOptions .empty (testRequest "deadbeef") = .replied reply ∧
      handle testOptions (.add .empty "idem-2") (testRequest "deadbeef") = .replied reply' ∧
      (reply = reply' ↔ (testRequest "deadbeef").signatureHeader = none ∨
        (testRequest "deadbeef").idempotencyKey = none ∨
        ∃ key, (testRequest "deadbeef").idempotencyKey = some key ∧
          (key ∈ InMemoryIdempotencyStore.empty ↔
            key ∈ InMemoryIdempotencyStore.add .empty "idem-2")) :=
  handle_not_authentic_eq_iff testOptions not_authentic_deadbeef .empty (.add .empty "idem-2")

theorem accepted_key_visible : ¬∀ (options : GatewayOptions) (request : Request)
    (store store' : InMemoryIdempotencyStore), ¬Authentic options request →
      handle options store request = handle options store' request := by
  intro h
  have he := h testOptions (testRequest "deadbeef") .empty (.add .empty "idem-1")
    not_authentic_deadbeef
  have h403 : handle testOptions .empty (testRequest "deadbeef") =
      .replied ⟨403, .error "invalid_signature" "Invalid webhook signature"⟩ := rfl
  have h409 : handle testOptions (.add .empty "idem-1") (testRequest "deadbeef") =
      .replied ⟨409, .error "duplicate_idempotency_key" "Duplicate idempotency key"⟩ := rfl
  rw [h403, h409, Begun.replied.injEq] at he
  exact absurd he (by decide)

end SchemaPilot.Gateway
