import SchemaPilot.DiffReport

namespace SchemaPilot.Coverage

open Keyed JsonText Digest Canonical Classifier PayloadPaths DiffReport

section

variable (isPrintable : Char → Bool) (p q : Payload)

/-- What the canonical schema of a payload shows at a path text. -/
def shown (path : String) : Option Schema := shows (canonicalize p.json) path

/-- The two payloads show different things at the path text. -/
def Differs (path : String) : Prop := pyEqOption (shown p path) (shown q path) = false

/-- No path text brings together two `enum` lists that Python cannot make sets of. -/
def Comparable : Prop :=
  ∀ path, Differs p q path → clash isPrintable (shown p path) (shown q path) = false

def untyped : Bool := keysAll untypedKey p.json

def plain : Bool := keysAll plainKey p.json

/-- No other location at which a payload has a scalar or an array is written as this one is. -/
def OwnText (loc : List Step) : Prop :=
  ∀ loc', pathText loc' = pathText loc → (markAt p.json loc').isSome ∨ (markAt q.json loc').isSome → loc' = loc

/-- A scalar of the first payload, reached through keys, where the second has no value. -/
def RemovedLeafAt (ks : List String) : Prop :=
  ∃ (k : ScalarKind) (v : Json), valueAt p.json (ks.map .key) = some v ∧ shape v = .scalar k ∧
    valueAt q.json (ks.map .key) = none

def RemovedLeaf : Prop := ∃ ks, RemovedLeafAt p q ks

/-- No key is `type`, and of the scalars that are removed, if any is, one has a path text of its own. -/
structure RemovalOwnsText : Prop where
  untyped : untyped p ∧ untyped q
  own : RemovedLeaf p q → ∃ ks, RemovedLeafAt p q ks ∧ OwnText p q (ks.map .key)

/-- No key is `type`, and of the locations where payloads of two shapes differ, one has a path text of
its own. -/
structure DifferenceOwnsText : Prop where
  untyped : untyped p ∧ untyped q
  own : shape p.json ≠ shape q.json → ∃ loc, markAt p.json loc ≠ markAt q.json loc ∧ OwnText p q loc

end

def IsMark (node : Schema) : Prop := (∃ k, node = leafOf k) ∨ node = arrayMarker

theorem isMark_of_markAt {j : Json} {loc : List Step} {node : Schema}
    (h : markAt j loc = some node) : IsMark node := by
  obtain ⟨v, -, hv⟩ := Option.bind_eq_some_iff.mp h
  obtain ⟨k, hs, hk⟩ | ⟨items, rfl⟩ | ⟨fields, rfl⟩ := payload_cases v
  · have hm := markAt_scalar hs []
    rw [show markAt v [] = markOf v from rfl, hv] at hm
    exact .inl ⟨k, Option.some.inj hm⟩
  · exact .inr (Option.some.inj hv).symm
  · cases hv

theorem IsMark.pyEq_eq_false {a b : Schema} (ha : IsMark a) (hb : IsMark b) (h : a ≠ b) :
    pyEq a b = false := by
  obtain ⟨k, rfl⟩ | rfl := ha <;> obtain ⟨l, rfl⟩ | rfl := hb
  · cases k <;> cases l <;> first | rfl | exact absurd rfl h
  · cases k <;> rfl
  · cases l <;> rfl
  · exact absurd rfl h

theorem IsMark.get_enum {node : Schema} (h : IsMark node) : get node "enum" = none := by
  obtain ⟨k, rfl⟩ | rfl := h
  · cases k <;> rfl
  · rfl

theorem IsMark.required {node : Schema} (h : IsMark node) : requiredOf node true = true := by
  obtain ⟨k, rfl⟩ | rfl := h
  · cases k <;> rfl
  · rfl

theorem isMark_of_untyped {p : Payload} (hp : untyped p) {path : String} {node : Schema}
    (h : shown p path = some node) : IsMark node := by
  obtain ⟨loc, hm, -⟩ := markAt_of_shows hp h
  exact isMark_of_markAt hm

theorem isMark_of_shown {p : Payload} (hp : plain p) {path : String} {node : Schema}
    (h : shown p path = some node) : IsMark node :=
  isMark_of_untyped (untyped_of_plain hp) h

theorem comparable_of_untyped (isPrintable : Char → Bool) {p q : Payload} (hp : untyped p) :
    Comparable isPrintable p q := by
  intro path _
  cases ho : shown p path with
  | none => rfl
  | some old =>
    cases shown q path with
    | none => rfl
    | some new => simp [clash, enumsUnhashable, (isMark_of_untyped hp ho).get_enum]

section OwnText

variable {p q : Payload} {loc : List Step}

theorem OwnText.shown_left (h : OwnText p q loc) (hp : untyped p) : shown p (pathText loc) = markAt p.json loc :=
  shows_of_own hp fun loc' heq hm => h loc' heq (.inl hm)

theorem OwnText.shown_right (h : OwnText p q loc) (hq : untyped q) : shown q (pathText loc) = markAt q.json loc :=
  shows_of_own hq fun loc' heq hm => h loc' heq (.inr hm)

/-- Where the marks of two payloads differ at such a location, the flattened schemas differ too. -/
theorem OwnText.differs (h : OwnText p q loc) (hp : untyped p) (hq : untyped q)
    (hne : markAt p.json loc ≠ markAt q.json loc) : Differs p q (pathText loc) := by
  rw [Differs, h.shown_left hp, h.shown_right hq]
  cases hm : markAt p.json loc with
  | none =>
    cases hn : markAt q.json loc with
    | none => exact absurd (hm.trans hn.symm) hne
    | some new => rfl
  | some old =>
    cases hn : markAt q.json loc with
    | none => rfl
    | some new =>
      exact (isMark_of_markAt hm).pyEq_eq_false (isMark_of_markAt hn)
        fun he => hne (by rw [hm, hn, he])

theorem plainLocation_of_isSome (hp : plain p) (hq : plain q)
    (h : (markAt p.json loc).isSome ∨ (markAt q.json loc).isSome) : PlainLocation loc := by
  obtain h | h := h
  · obtain ⟨node, hm⟩ := Option.isSome_iff_exists.mp h
    exact plainLocation_of_markAt hp hm
  · obtain ⟨node, hm⟩ := Option.isSome_iff_exists.mp h
    exact plainLocation_of_markAt hq hm

/-- The locations of plain payloads have path texts of their own. -/
theorem ownText_of_plain (hp : plain p) (hq : plain q)
    (h : (markAt p.json loc).isSome ∨ (markAt q.json loc).isSome) : OwnText p q loc :=
  fun _ heq h' => pathText_injective (plainLocation_of_isSome hp hq h') (plainLocation_of_isSome hp hq h) heq

theorem isSome_of_markAt_ne (h : markAt p.json loc ≠ markAt q.json loc) :
    (markAt p.json loc).isSome ∨ (markAt q.json loc).isSome := by
  cases hm : markAt p.json loc with
  | some node => exact .inl rfl
  | none =>
    obtain ⟨node, hn⟩ := Option.ne_none_iff_exists'.mp (hm ▸ h.symm)
    rw [hn]
    exact .inr rfl

/-- Where the marks of two plain payloads differ, the flattened schemas differ too. -/
theorem differs_of_markAt (hp : plain p) (hq : plain q) (h : markAt p.json loc ≠ markAt q.json loc) :
    PlainLocation loc ∧ Differs p q (pathText loc) := by
  have hsome := isSome_of_markAt_ne h
  exact ⟨plainLocation_of_isSome hp hq hsome,
    (ownText_of_plain hp hq hsome).differs (untyped_of_plain hp) (untyped_of_plain hq) h⟩

end OwnText

/-- The diff has an item exactly if the flattening shows a difference and the classifier can compare
the two sides. -/
theorem nonempty_iff (isPrintable : Char → Bool) (p q : Payload) :
    (∃ d ds, diffAndClassify isPrintable (canonicalize p.json) (canonicalize q.json) = .ok (d :: ds)) ↔
      Comparable isPrintable p q ∧ ∃ path, Differs p q path := by
  have h := diffAndClassify_spec isPrintable (canonicalize p.json) (canonicalize q.json)
    (fun _ => True)
  have hitems : (∃ d ds, diffAndClassify isPrintable (canonicalize p.json) (canonicalize q.json) =
      .ok (d :: ds)) ↔ ∃ ds, diffAndClassify isPrintable (canonicalize p.json)
        (canonicalize q.json) = .ok ds ∧ ∃ d ∈ ds, True := by
    constructor
    · rintro ⟨d, ds, h⟩
      exact ⟨_, h, d, by simp, trivial⟩
    · rintro ⟨_ | ⟨d, ds⟩, h, e, he, -⟩
      · cases he
      · exact ⟨d, ds, h⟩
  rw [hitems, h]
  refine and_congr_right fun hc => exists_congr fun path => and_iff_left_of_imp fun hd => ?_
  obtain ⟨⟨c, r⟩, h⟩ := (classify_isOk_iff isPrintable _ _).mpr (hc path hd)
  exact ⟨c, r, h, trivial⟩

/-- Schema versions with different fingerprints have a diff with an item, where a location at which
the payloads differ has a path text of its own. Plain payloads without empty objects below the root
always have one. -/
theorem diff_nonempty (sha256 : ByteArray → String) (hsha : Function.Injective sha256)
    (isPrintable : Char → Bool) (p q : Payload) :
    (DifferenceOwnsText p q →
      fingerprint sha256 (canonicalize p.json) ≠ fingerprint sha256 (canonicalize q.json) →
        ∃ d ds, diffAndClassify isPrintable (canonicalize p.json) (canonicalize q.json) = .ok (d :: ds)) ∧
    (plain p → plain q → filled p.json → filled q.json → DifferenceOwnsText p q) := by
  constructor
  · rintro ⟨⟨hp, hq⟩, hown⟩ hne
    have hshape : shape p.json ≠ shape q.json := fun heq =>
      hne ((fingerprint_eq_iff hsha _ _).mpr ((normal_eq_iff p.json q.json p.wf q.wf).mpr heq))
    obtain ⟨loc, hmarks, htext⟩ := hown hshape
    exact (nonempty_iff isPrintable p q).mpr ⟨comparable_of_untyped isPrintable hp, _, htext.differs hp hq hmarks⟩
  · intro hp hq hfp hfq
    refine ⟨⟨untyped_of_plain hp, untyped_of_plain hq⟩, fun hne => ?_⟩
    have hloc : ∃ loc, markAt p.json loc ≠ markAt q.json loc := by
      by_contra h
      exact hne (shape_eq_of_markAt hfp hfq fun loc => not_not.mp (not_exists.mp h loc))
    obtain ⟨loc, hmarks⟩ := hloc
    exact ⟨loc, hmarks, ownText_of_plain hp hq (isSome_of_markAt_ne hmarks)⟩

/-- A new member of a plain payload is reported. -/
theorem diff_nonempty_new_member :
    let p : Payload := ⟨[("id", .num (.int 1))], by decide⟩
    let q : Payload := ⟨[("id", .num (.int 1)), ("name", .str "x")], by decide⟩
    let sha256 := sampleSha256 [
      (dumpsSorted (canonicalize p.json),
        "6cb75e55c017113583f160cf9ac80005718faf336e83fd4aa88b8f14f7691326"),
      (dumpsSorted (canonicalize q.json),
        "0846952b503944dcf650744f98d3bab29d267a14441f237316b1f4ac27655191")]
    fingerprint sha256 (canonicalize p.json) ≠ fingerprint sha256 (canonicalize q.json) ∧
      ∃ d ds, diffAndClassify (fun _ => true) (canonicalize p.json) (canonicalize q.json) =
        .ok (d :: ds) := by
  intro p q sha256
  have hsha : Function.Injective sha256 := sampleSha256_injective _ (by simp) (by simp)
  have hne : fingerprint sha256 (canonicalize p.json) ≠ fingerprint sha256 (canonicalize q.json) := by
    rw [ne_eq, fingerprint_eq_iff hsha]
    decide
  obtain ⟨hreported, hplain⟩ := diff_nonempty sha256 hsha (fun _ => true) p q
  exact ⟨hne, hreported (hplain (by decide) (by decide) (by decide) (by decide)) hne⟩

/-- A nested member and a member whose key holds the dot have one path text. -/
theorem diff_empty_dotted_key :
    let p : Payload := ⟨[("a", .obj [("b", .num (.int 1))])], by decide⟩
    let q : Payload := ⟨[("a.b", .num (.int 1))], by decide⟩
    let sha256 := sampleSha256 [
      (dumpsSorted (canonicalize p.json),
        "7ca2fafbd0528edccc385d27caff4764be686387f8c954d61777f47610458e65"),
      (dumpsSorted (canonicalize q.json),
        "025fae3522e1214fe5282fd2a93d67ceeab3baa9f3549aca89d8e846aa16ebdf")]
    ¬(fingerprint sha256 (canonicalize p.json) ≠ fingerprint sha256 (canonicalize q.json) →
      ∃ d ds, diffAndClassify (fun _ => true) (canonicalize p.json) (canonicalize q.json) =
        .ok (d :: ds)) := by
  intro p q sha256 h
  have hsha : Function.Injective sha256 := sampleSha256_injective _ (by simp) (by simp)
  have hne : fingerprint sha256 (canonicalize p.json) ≠ fingerprint sha256 (canonicalize q.json) := by
    rw [ne_eq, fingerprint_eq_iff hsha]
    decide
  have hnil : diffAndClassify (fun _ => true) (canonicalize p.json) (canonicalize q.json) = .ok [] := by
    rfl
  obtain ⟨d, ds, hd⟩ := h hne
  rw [hnil] at hd
  cases hd

theorem reports_breaking_iff (isPrintable : Char → Bool) (p q : Payload) :
    (∃ ds, diffAndClassify isPrintable (canonicalize p.json) (canonicalize q.json) = .ok ds ∧
      ∃ d ∈ ds, d.classification = .BREAKING) ↔
    Comparable isPrintable p q ∧
      ∃ path, Differs p q path ∧ breaking isPrintable (shown p path) (shown q path) := by
  rw [diffAndClassify_spec isPrintable _ _ (· = .BREAKING)]
  refine and_congr_right fun _ => exists_congr fun path => and_congr_right fun _ => ?_
  rw [shown, shown, ← classify_breaking_iff isPrintable (enumOpaque_shows p.json path)
    (enumOpaque_shows q.json path)]
  exact ⟨fun ⟨c, r, h, hc⟩ => ⟨r, hc ▸ h⟩, fun ⟨r, h⟩ => ⟨_, r, h, rfl⟩⟩

theorem RemovedLeafAt.marks {p q : Payload} {ks : List String} (h : RemovedLeafAt p q ks) :
    (∃ k, markAt p.json (ks.map .key) = some (leafOf k)) ∧ markAt q.json (ks.map .key) = none := by
  obtain ⟨k, v, hv, hs, hn⟩ := h
  refine ⟨⟨k, ?_⟩, by rw [markAt, hn]; rfl⟩
  rw [markAt, hv]
  exact markAt_scalar hs []

/-- A removed leaf is reported as BREAKING, where one that is removed has a path text of its own.
Plain payloads, where no key is `type`, empty or a piece of path text, always have one. -/
theorem removed_leaf_breaking (isPrintable : Char → Bool) (p q : Payload) :
    (RemovalOwnsText p q → RemovedLeaf p q →
        ∃ ds, diffAndClassify isPrintable (canonicalize p.json) (canonicalize q.json) = .ok ds ∧
          (∃ d ∈ ds, d.classification = .BREAKING) ∧ summarizeClassification ds = .BREAKING) ∧
    (plain p → plain q → RemovalOwnsText p q) := by
  constructor
  · rintro ⟨⟨hp, hq⟩, hown⟩ hremoved
    obtain ⟨ks, hks, htext⟩ := hown hremoved
    obtain ⟨⟨k, hm⟩, hn⟩ := hks.marks
    have hdiffers : Differs p q (pathText (ks.map .key)) := htext.differs hp hq (by rw [hm, hn]; simp)
    simp only [summarize_eq_breaking_iff, and_self, reports_breaking_iff]
    refine ⟨comparable_of_untyped isPrintable hp, _, hdiffers, ?_⟩
    rw [htext.shown_left hp, htext.shown_right hq, hm, hn]
    exact IsMark.required (.inl ⟨k, rfl⟩)
  · intro hp hq
    refine ⟨⟨untyped_of_plain hp, untyped_of_plain hq⟩, fun ⟨ks, hks⟩ => ⟨ks, hks, ?_⟩⟩
    obtain ⟨⟨k, hm⟩, -⟩ := hks.marks
    exact ownText_of_plain hp hq (.inl (by rw [hm]; rfl))

theorem removed_leaf_breaking_nested :
    let p : Payload := ⟨[("user", .obj [("id", .num (.int 1)), ("name", .str "x")])], by decide⟩
    let q : Payload := ⟨[("user", .obj [("name", .str "x")])], by decide⟩
    ∃ ds, diffAndClassify (fun _ => true) (canonicalize p.json) (canonicalize q.json) = .ok ds ∧
      (∃ d ∈ ds, d.classification = .BREAKING) ∧ summarizeClassification ds = .BREAKING := by
  intro p q
  obtain ⟨hreported, hplain⟩ := removed_leaf_breaking (fun _ => true) p q
  exact hreported (hplain (by decide) (by decide)) ⟨["user", "id"], .integer, .num (.int 1), rfl, rfl, rfl⟩

/-- A payload with a member named `type` is taken for one leaf, and losing a member of it is SAFE. -/
theorem removed_leaf_type_key :
    let p : Payload := ⟨[("type", .str "x"), ("id", .num (.int 1))], by decide⟩
    let q : Payload := ⟨[("type", .str "x")], by decide⟩
    ¬(RemovedLeaf p q →
      ∃ ds, diffAndClassify (fun _ => true) (canonicalize p.json) (canonicalize q.json) = .ok ds ∧
        (∃ d ∈ ds, d.classification = .BREAKING) ∧ summarizeClassification ds = .BREAKING) := by
  intro p q h
  obtain ⟨ds, hds, -, hsum⟩ := h ⟨["id"], .integer, .num (.int 1), rfl, rfl, rfl⟩
  have hsafe : (diffAndClassify (fun _ => true) (canonicalize p.json) (canonicalize q.json)).map
      summarizeClassification = .ok .SAFE := by rfl
  rw [hds] at hsafe
  rw [Except.map, hsum] at hsafe
  cases hsafe

end SchemaPilot.Coverage
