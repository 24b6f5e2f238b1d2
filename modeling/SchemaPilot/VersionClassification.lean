import SchemaPilot.TrackInvariant

namespace SchemaPilot.VersionClassification

open JsonText Digest Canonical Classifier Registry Runs TrackRuns

variable {ι : Type} [Fintype ι] [DecidableEq ι]

theorem runInv {c : Config ι} {s : State ι} (h : Reachable (step c) always init s) :
    RunInv c [] s :=
  h.invariant (RunInv.init c) fun _ _ _ hI _ hs => hI.step hs

/-- Whatever the interleaving, the failures and the deliveries: a committed version has the
classification of the schema it was inserted with against that of the version before it,
and a first version is `SAFE`. -/
theorem committed_classification (c : Config ι) {s : State ι}
    (h : Reachable (step c) always init s) :
    ∀ r ∈ s.registry.db.versions,
      match r.previousVersionId with
      | none => r.compatibilityClassification = .SAFE
      | some p => ∃ prev ∈ s.registry.db.versions, prev.id = p ∧
        (∀ v ∈ s.registry.db.versions, v.id = p → v = prev) ∧
        ∃ i diffs, c.base.jsonb (canonicalize (c.call i).payload.json) = some r.canonicalSchema ∧
          r.fingerprint = fingerprint c.base.sha256 (canonicalize (c.call i).payload.json) ∧
          diffAndClassify c.base.isPrintable prev.canonicalSchema
            (canonicalize (c.call i).payload.json) = .ok diffs ∧
          r.compatibilityClassification = summarizeClassification diffs := by
  intro r hr
  have hI := runInv h
  have hc := hI.rows r hr
  rw [Classified] at hc
  cases hp : r.previousVersionId with
  | none =>
    rw [hp] at hc
    exact hc
  | some p =>
    rw [hp] at hc
    obtain ⟨prev, hm, hid, he⟩ := hc
    refine ⟨prev, hm, hid, fun v hv hvid => ?_, he⟩
    exact hI.drafts.eq_of_id hv hm (hvid.trans hid.symm)

/-- Two requests of one endpoint, the first to its end before the second, with no subscriptions. -/
def oneAfterTheOther : List (Action Bool) :=
  List.replicate 10 (.advance false 0 0) ++ List.replicate 16 (.advance true 0 0)

def ordersKey : EndpointKey := ⟨"n", "svc", "POST", "/orders"⟩

def sampleConfig (sha256 : ByteArray → String) (jsonb : Schema → Option Schema)
    (call : Bool → Track.Call) : Config Bool where
  base := { sha256, isPrintable := fun _ => true, jsonb, batchSize := 50, inlineDelivery := true }
  call := call
  hash := fun second _ => if second then -12 else 7

/-- An integer field that becomes a float. -/
def widened (second : Bool) : Track.Call :=
  if second then ⟨ordersKey, [("score", .num (.float ⟨"2.5", by decide⟩))], by decide⟩
  else ⟨ordersKey, [("score", .num (.int 2))], by decide⟩

def widenedSha256 : ByteArray → String :=
  sampleSha256 [
    (dumpsSorted (canonicalize (widened false).payload.json),
      "0a729e6ab6035dcd37f199094b9a24d60279d01ee62db8fa3cca7c3fa2dcb417"),
    (dumpsSorted (canonicalize (widened true).payload.json),
      "73a603da77a37e886a14b8c2ac441c920e99006a4314627c9abef71b5aed1c6a")]

theorem committed_classification_widened :
    ∃ s, Reachable (step (sampleConfig widenedSha256 some widened)) always init s ∧
      ∃ r prev, r ∈ s.registry.db.versions ∧ prev ∈ s.registry.db.versions ∧
        r.compatibilityClassification = .RISKY ∧ r.previousVersionId = some prev.id ∧
        ∃ i diffs,
          diffAndClassify (fun _ => true) prev.canonicalSchema
            (canonicalize (widened i).payload.json) = .ok diffs ∧
          r.compatibilityClassification = summarizeClassification diffs := by
  have hmap : (run (step (sampleConfig widenedSha256 some widened)) always init
      oneAfterTheOther).map (fun s => s.registry.db.versions.map fun r =>
        (r.compatibilityClassification, r.previousVersionId)) =
      some [(.SAFE, none), (.RISKY, some 1)] := by decide +kernel
  obtain ⟨s, hs, hv⟩ := Option.map_eq_some_iff.mp hmap
  have hreach := reachable_run (step (sampleConfig widenedSha256 some widened)) always .start hs
  have hm : (Compatibility.RISKY, some 1) ∈ s.registry.db.versions.map fun r =>
      (r.compatibilityClassification, r.previousVersionId) := by
    rw [hv]
    exact List.mem_cons_of_mem _ (List.mem_singleton_self _)
  obtain ⟨r, hr, hcols⟩ := List.mem_map.mp hm
  obtain ⟨hc, hp⟩ := Prod.mk.inj hcols
  have hall := committed_classification _ hreach r hr
  rw [hp] at hall
  obtain ⟨prev, hprev, hid, -, i, diffs, -, -, hd, hsum⟩ := hall
  exact ⟨s, hreach, r, prev, hr, hprev, hc, by rw [hp, hid], i, diffs, hd, hsum⟩

/-- The order of keys in PostgreSQL's `jsonb`: shorter ones first, and by their text among
keys of one length. -/
def jsonbBefore (a b : String × Schema) : Bool :=
  a.1.length < b.1.length || a.1.length = b.1.length && a.1 ≤ b.1

mutual

/-- A value of distinct ASCII keys, as a `jsonb` column returns it. -/
def jsonbOrder : Schema → Schema
  | .obj fields => .obj ((jsonbFields fields).insertionSort (jsonbBefore · ·))
  | .arr items => .arr (jsonbItems items)
  | .null => .null
  | .bool b => .bool b
  | .str s => .str s

def jsonbItems : List Schema → List Schema
  | [] => []
  | x :: items => jsonbOrder x :: jsonbItems items

def jsonbFields : List (String × Schema) → List (String × Schema)
  | [] => []
  | (k, v) :: fields => (k, jsonbOrder v) :: jsonbFields fields

end

/-- Two payloads with a field named `type` that is an object, told apart by another field. -/
def typeField (second : Bool) : Track.Call :=
  let type : String × Json := ("type", .obj [("aa", .arr []), ("b", .arr [])])
  if second then ⟨ordersKey, [type, ("x", .arr [])], by decide⟩ else ⟨ordersKey, [type], by decide⟩

def typeFieldConfig : Config Bool :=
  sampleConfig (sampleSha256 [
    (dumpsSorted (canonicalize (typeField false).payload.json),
      "4705e98cb7e63452e9db105ea689350bdbd71ccde2770381d58a73b308bcc7ca"),
    (dumpsSorted (canonicalize (typeField true).payload.json),
      "077c06afe0810d49803175dc9028a1da4b033b8dac8bd7e24f291445ea51add5")])
    (fun schema => some (jsonbOrder schema)) typeField

def firstRow : SchemaVersionRecord where
  id := 1
  endpointId := 0
  version := 1
  fingerprint := "4705e98cb7e63452e9db105ea689350bdbd71ccde2770381d58a73b308bcc7ca"
  canonicalSchema := jsonbOrder (canonicalize (typeField false).payload.json)
  compatibilityClassification := .SAFE
  previousVersionId := none
  isCurrent := false

def secondRow : SchemaVersionRecord where
  id := 2
  endpointId := 0
  version := 2
  fingerprint := "077c06afe0810d49803175dc9028a1da4b033b8dac8bd7e24f291445ea51add5"
  canonicalSchema := jsonbOrder (canonicalize (typeField true).payload.json)
  compatibilityClassification := .BREAKING
  previousVersionId := some 1
  isCurrent := true

/-- The stored schema of the new row lists its keys in another order than the schema that was
compared, and the text of a `type` that is an object shows the order. -/
theorem stored_schema_compared : ¬∀ (c : Config Bool) (s : State Bool),
    Reachable (step c) always init s → ∀ r ∈ s.registry.db.versions,
      ∀ prev ∈ s.registry.db.versions, r.previousVersionId = some prev.id →
        (diffAndClassify c.base.isPrintable prev.canonicalSchema r.canonicalSchema).map
          summarizeClassification = .ok r.compatibilityClassification := by
  intro h
  have hmap : (run (step typeFieldConfig) always init oneAfterTheOther).map
      (fun s => s.registry.db.versions) = some [firstRow, secondRow] := by decide +kernel
  have hsafe : (diffAndClassify (fun _ => true) firstRow.canonicalSchema
      secondRow.canonicalSchema).map summarizeClassification = .ok .SAFE := by decide +kernel
  obtain ⟨s, hs, hv⟩ := Option.map_eq_some_iff.mp hmap
  have hreach := reachable_run (step typeFieldConfig) always .start hs
  have hfirst : firstRow ∈ s.registry.db.versions := hv ▸ List.mem_cons_self
  have hsecond : secondRow ∈ s.registry.db.versions :=
    hv ▸ List.mem_cons_of_mem _ (List.mem_singleton_self _)
  have hall := h typeFieldConfig s hreach secondRow hsecond firstRow hfirst rfl
  cases hsafe.symm.trans hall

end SchemaPilot.VersionClassification
