import SchemaPilot.VersionChain

namespace SchemaPilot.StandIn

open Keyed Canonical Classifier PayloadPaths DiffReport Coverage VersionChain

section Bodies

mutual

/-- An object with nothing in it but such objects: the diff sees nothing of it. -/
def hollow : Json → Bool
  | .obj fields => hollowFields fields
  | .null | .bool _ | .num _ | .str _ | .arr _ => false

def hollowFields : List (String × Json) → Bool
  | [] => true
  | (_, v) :: fields => hollow v && hollowFields fields

end

def child : Json → Step → Option Json
  | .obj fields, .key k => fields.lookup k
  | .arr items, .item i => items[i]?
  | _, _ => none

/-- A client that parses the first kind parses the second. -/
def parsesAs : ScalarKind → ScalarKind → Bool
  | .integer, .number => true
  | k, l => k = l

def scalarStandsIn (v w : Json) : Bool :=
  match shape v, shape w with
  | .scalar k, .scalar l => parsesAs k l
  | _, _ => false

mutual

/-- The second value can stand in for the first: where a client of the first finds an array or a
scalar, it finds an array, or a scalar of that kind or a wider one. -/
def standsIn : Json → Json → Bool
  | .obj fields, w => standsInFields fields w
  | .arr items, .arr items' => standsInItems items items'
  | .arr _, _ => false
  | .null, w => scalarStandsIn .null w
  | .bool b, w => scalarStandsIn (.bool b) w
  | .num n, w => scalarStandsIn (.num n) w
  | .str s, w => scalarStandsIn (.str s) w

def standsInFields : List (String × Json) → Json → Bool
  | [], _ => true
  | (k, v) :: fields, w =>
    (hollow v || match child w (.key k) with
      | some x => standsIn v x
      | none => false) && standsInFields fields w

def standsInItems : List Json → List Json → Bool
  | [], _ => true
  | v :: items, [] => hollow v && standsInItems items []
  | v :: items, w :: items' => (hollow v || standsIn v w) && standsInItems items items'

end

theorem hollow_obj_iff (fields : List (String × Json)) :
    hollow (.obj fields) ↔ ∀ p ∈ fields, hollow p.2 := by
  change hollowFields fields = true ↔ _
  induction fields with
  | nil => simp [hollowFields]
  | cons p fields ih => simp [hollowFields, ih]

theorem standsIn_obj_iff (fields : List (String × Json)) (w : Json) :
    standsIn (.obj fields) w ↔ ∀ p ∈ fields, hollow p.2 ∨ ∃ x, child w (.key p.1) = some x ∧ standsIn p.2 x := by
  rw [standsIn]
  induction fields with
  | nil => simp [standsInFields]
  | cons p fields ih =>
    obtain ⟨k, v⟩ := p
    rw [standsInFields, Bool.and_eq_true, ih, Bool.or_eq_true, List.forall_mem_cons]
    apply and_congr_left'
    cases child w (.key k) <;> simp

theorem standsIn_arr_iff (items items' : List Json) :
    standsIn (.arr items) (.arr items') ↔
      ∀ (i : Nat) v, items[i]? = some v → hollow v ∨ ∃ w, items'[i]? = some w ∧ standsIn v w := by
  rw [standsIn]
  induction items generalizing items' with
  | nil => simp [standsInItems]
  | cons v items ih =>
    cases items' with
    | nil =>
      rw [standsInItems, Bool.and_eq_true, ih]
      constructor
      · rintro ⟨hv, hrest⟩ (_ | i) x hx
        · exact .inl (Option.some.inj hx ▸ hv)
        · exact hrest i x hx
      · exact fun h => ⟨(h 0 v rfl).resolve_right (by simp), fun i => h (i + 1)⟩
    | cons w items' =>
      rw [standsInItems, Bool.and_eq_true, ih, Bool.or_eq_true]
      constructor
      · rintro ⟨hv, hrest⟩ (_ | i) x hx
        · obtain rfl := Option.some.inj hx
          exact hv.imp_right fun h => ⟨w, rfl, h⟩
        · exact hrest i x hx
      · refine fun h => ⟨(h 0 v rfl).imp_right ?_, fun i => h (i + 1)⟩
        rintro ⟨x, hx, h⟩
        rwa [← Option.some.inj hx] at h

theorem standsIn_scalar {v : Json} {k : ScalarKind} (h : shape v = .scalar k) (w : Json) :
    standsIn v w ↔ ∃ l, shape w = .scalar l ∧ parsesAs k l := by
  have hscalar : standsIn v w = scalarStandsIn v w := by
    cases v with
    | arr items | obj fields => simp [shape] at h
    | null | bool b | num n | str s => rw [standsIn]
  rw [hscalar, scalarStandsIn, h]
  cases shape w <;> simp

end Bodies

section Locations

variable {isPrintable : Char → Bool}

def kindName : ScalarKind → String
  | .null => "null"
  | .boolean => "boolean"
  | .integer => "integer"
  | .number => "number"
  | .string => "string"

theorem typeOf_leafOf (k : ScalarKind) : typeOf isPrintable (leafOf k) = kindName k := by
  cases k <;> rfl

theorem kindName_ne_array (k : ScalarKind) : kindName k ≠ "array" := by
  cases k <;> decide

theorem widens_kindName_iff (k l : ScalarKind) :
    Widens (some (kindName k)) (some (kindName l)) ↔ parsesAs k l := by
  rw [Widens]
  cases k <;> cases l <;> decide

theorem widens_none {t : Option String} (h : Widens t none) : t = none := by
  cases t with
  | none => rfl
  | some t => simp [Widens] at h

/-- The type of what the diff sees at a location. -/
def typeNameAt (isPrintable : Char → Bool) (j : Json) (loc : List Step) : Option String :=
  (markAt j loc).map (typeOf isPrintable)

theorem typeNameAt_cons (j : Json) (step : Step) (loc : List Step) :
    typeNameAt isPrintable j (step :: loc) = (child j step).bind (typeNameAt isPrintable · loc) := by
  have hmark : markAt j (step :: loc) = (child j step).bind (markAt · loc) := by
    cases j with
    | obj fields =>
      rw [markAt_obj]
      cases step <;> rfl
    | arr items =>
      rw [markAt_arr]
      cases step <;> rfl
    | null | bool b | num n | str s => cases step <;> rfl
  rw [typeNameAt, hmark]
  exact Option.map_bind

theorem typeNameAt_scalar {j : Json} {k : ScalarKind} (h : shape j = .scalar k) :
    typeNameAt isPrintable j [] = some (kindName k) := by
  rw [typeNameAt, markAt_scalar h]
  exact congrArg some (typeOf_leafOf k)

theorem typeNameAt_arr (items : List Json) :
    typeNameAt isPrintable (.arr items) [] = some "array" := rfl

theorem typeNameAt_obj (fields : List (String × Json)) :
    typeNameAt isPrintable (.obj fields) [] = none := rfl

/-- Where a scalar is read, only a scalar of that kind or a wider one stands in. -/
theorem widens_kind_iff (k : ScalarKind) (w : Json) :
    Widens (some (kindName k)) (typeNameAt isPrintable w []) ↔ ∃ l, shape w = .scalar l ∧ parsesAs k l := by
  obtain ⟨l, hl, -⟩ | ⟨items, rfl⟩ | ⟨fields, rfl⟩ := payload_cases w
  · rw [typeNameAt_scalar hl, widens_kindName_iff, hl]
    simp
  · rw [typeNameAt_arr]
    refine iff_of_false ?_ (by simp [shape])
    rintro (h | ⟨-, h⟩)
    · exact kindName_ne_array k (Option.some.inj h).symm
    · exact absurd (Option.some.inj h) (by decide)
  · rw [typeNameAt_obj]
    exact iff_of_false (fun h => by cases widens_none h) (by simp [shape])

theorem widens_array_iff (w : Json) :
    Widens (some "array") (typeNameAt isPrintable w []) ↔ ∃ items, w = .arr items := by
  constructor
  · rintro (h | ⟨h, -⟩)
    · obtain ⟨l, hl, -⟩ | ⟨items, rfl⟩ | ⟨fields, rfl⟩ := payload_cases w
      · rw [typeNameAt_scalar hl] at h
        exact absurd (Option.some.inj h) (kindName_ne_array l)
      · exact ⟨items, rfl⟩
      · cases h
    · exact absurd h (by decide)
  · rintro ⟨items, rfl⟩
    exact .inl rfl

theorem child_scalar {j : Json} {k : ScalarKind} (h : shape j = .scalar k) (step : Step) :
    child j step = none := by
  cases j with
  | arr items | obj fields => simp [shape] at h
  | null | bool b | num n | str s => cases step <;> rfl

theorem wf_child {j v : Json} {step : Step} (hwf : j.wf) (h : child j step = some v) : v.wf := by
  cases j with
  | obj fields =>
    cases step with
    | key k => exact ((JsonOf.wf_obj_iff fields).mp hwf).2 _ (mem_of_lookup h)
    | item i => cases h
  | arr items =>
    cases step with
    | key k => cases h
    | item i => exact (JsonOf.wf_arr_iff items).mp hwf v (List.mem_of_getElem? h)
  | null | bool b | num n | str s => cases step <;> cases h

/-- The diff sees nothing of a hollow value, and something of every other value. -/
theorem hollow_iff (isPrintable : Char → Bool) {v : Json} (hwf : v.wf) :
    hollow v ↔ ∀ loc, typeNameAt isPrintable v loc = none := by
  induction v using payload_induct with
  | scalar v k hs hc =>
    have hsolid : hollow v = false := by
      cases v with
      | obj fields => simp [shape] at hs
      | null | bool b | num n | str s | arr items => rfl
    refine iff_of_false (by simp [hsolid]) fun h => ?_
    cases (typeNameAt_scalar hs).symm.trans (h [])
  | arr items ih =>
    refine iff_of_false Bool.false_ne_true fun h => ?_
    cases h []
  | obj fields ih =>
    obtain ⟨hn, hws⟩ := (JsonOf.wf_obj_iff fields).mp hwf
    rw [hollow_obj_iff]
    constructor
    · rintro h (_ | ⟨step, loc⟩)
      · rfl
      · rw [typeNameAt_cons]
        cases hv : child (.obj fields) step with
        | none => rfl
        | some v =>
          cases step with
          | key k =>
            have hp := mem_of_lookup hv
            exact (ih _ hp (hws _ hp)).mp (h _ hp) loc
          | item i => cases hv
    · intro h p hp
      refine (ih p hp (hws p hp)).mpr fun loc => ?_
      have hat := h (.key p.1 :: loc)
      rwa [typeNameAt_cons, child, (lookup_eq_some_iff_mem hn).mpr hp] at hat

/-- Whatever type the first value shows, the second shows at the same location, or a wider one. -/
def Served (isPrintable : Char → Bool) (v w : Json) : Prop :=
  ∀ loc, Widens (typeNameAt isPrintable v loc) (typeNameAt isPrintable w loc)

theorem served_iff {v w : Json} (hwf : v.wf) :
    Served isPrintable v w ↔
      Widens (typeNameAt isPrintable v []) (typeNameAt isPrintable w []) ∧
        ∀ step x, child v step = some x → hollow x ∨ ∃ y, child w step = some y ∧ Served isPrintable x y := by
  constructor
  · refine fun h => ⟨h [], fun step x hx => ?_⟩
    cases hy : child w step with
    | some y =>
      refine .inr ⟨y, rfl, fun loc => ?_⟩
      have hat := h (step :: loc)
      rwa [typeNameAt_cons, typeNameAt_cons, hx, hy] at hat
    | none =>
      refine .inl ((hollow_iff isPrintable (wf_child hwf hx)).mpr fun loc => ?_)
      have hat := h (step :: loc)
      rw [typeNameAt_cons, typeNameAt_cons, hx, hy] at hat
      exact widens_none hat
  · rintro ⟨hroot, hchildren⟩ (_ | ⟨step, loc⟩)
    · exact hroot
    · rw [typeNameAt_cons, typeNameAt_cons]
      cases hx : child v step with
      | none => trivial
      | some x =>
        obtain hx' | ⟨y, hy, hserved⟩ := hchildren step x hx
        · rw [Option.bind_some, (hollow_iff isPrintable (wf_child hwf hx)).mp hx' loc]
          trivial
        · rw [hy]
          exact hserved loc

theorem standsIn_iff (isPrintable : Char → Bool) {v w : Json} (hwf : v.wf) :
    standsIn v w ↔ Served isPrintable v w := by
  induction v using payload_induct generalizing w with
  | scalar v k hs hc =>
    have hnone : ∀ step x, child v step = some x →
        hollow x ∨ ∃ y, child w step = some y ∧ Served isPrintable x y := by
      intro step x hx
      cases (child_scalar hs step).symm.trans hx
    rw [served_iff hwf, and_iff_left hnone, standsIn_scalar hs, typeNameAt_scalar hs, widens_kind_iff]
  | arr items ih =>
    have hws := (JsonOf.wf_arr_iff items).mp hwf
    rw [served_iff hwf, typeNameAt_arr, widens_array_iff]
    constructor
    · intro h
      obtain ⟨items', rfl⟩ : ∃ items', w = .arr items' := by
        cases w with
        | arr items' => exact ⟨items', rfl⟩
        | _ => simp [standsIn] at h
      refine ⟨⟨items', rfl⟩, ?_⟩
      rintro (k | i) x hx
      · cases hx
      · refine ((standsIn_arr_iff items items').mp h i x hx).imp_right ?_
        rintro ⟨y, hy, hxy⟩
        have hm := List.mem_of_getElem? hx
        exact ⟨y, hy, (ih x hm (hws x hm)).mp hxy⟩
    · rintro ⟨⟨items', rfl⟩, h⟩
      refine (standsIn_arr_iff items items').mpr fun i x hx => (h (.item i) x hx).imp_right ?_
      rintro ⟨y, hy, hxy⟩
      have hm := List.mem_of_getElem? hx
      exact ⟨y, hy, (ih x hm (hws x hm)).mpr hxy⟩
  | obj fields ih =>
    obtain ⟨hn, hws⟩ := (JsonOf.wf_obj_iff fields).mp hwf
    rw [served_iff hwf, typeNameAt_obj, standsIn_obj_iff]
    constructor
    · refine fun h => ⟨trivial, ?_⟩
      rintro (k | i) x hx
      · have hp := mem_of_lookup hx
        refine (h _ hp).imp_right ?_
        rintro ⟨y, hy, hxy⟩
        exact ⟨y, hy, (ih _ hp (hws _ hp)).mp hxy⟩
      · cases hx
    · rintro ⟨-, h⟩ p hp
      refine (h (.key p.1) p.2 ((lookup_eq_some_iff_mem hn).mpr hp)).imp_right ?_
      rintro ⟨y, hy, hxy⟩
      exact ⟨y, hy, (ih p hp (hws p hp)).mpr hxy⟩

theorem typeAt_pathText {p : Payload} (hp : plain p) {loc : List Step} (hl : PlainLocation loc) :
    typeAt isPrintable (canonicalize p.json) (pathText loc) = typeNameAt isPrintable p.json loc := by
  rw [typeAt, shows_pathText hp hl, typeNameAt]

/-- For plain payloads the paths of the schemas lose nothing that the locations tell. -/
theorem extends_iff_served {p q : Payload} (hp : plain p) (hq : plain q) :
    Extends isPrintable (canonicalize p.json) (canonicalize q.json) ↔ Served isPrintable p.json q.json := by
  constructor
  · intro h loc
    cases hm : markAt p.json loc with
    | none =>
      rw [typeNameAt, hm]
      trivial
    | some mark =>
      have hl := plainLocation_of_markAt hp hm
      rw [← typeAt_pathText hp hl, ← typeAt_pathText hq hl]
      exact h (pathText loc)
  · intro h path
    cases hs : shows (canonicalize p.json) path with
    | none =>
      rw [typeAt, hs]
      trivial
    | some mark =>
      obtain ⟨loc, hl, -, rfl⟩ := location_of_shows hp hs
      rw [typeAt_pathText hp hl, typeAt_pathText hq hl]
      exact h loc

end Locations

/-- The registry's verdict on two payloads is what their structure says: it is not BREAKING exactly
when the new payload can stand in for the old one wherever the old one holds an array or a scalar. -/
theorem verdict_iff_standsIn (isPrintable : Char → Bool) (p q : Payload) (hp : plain p)
    (hq : plain q) :
    (∃ ds, diffAndClassify isPrintable (canonicalize p.json) (canonicalize q.json) = .ok ds ∧
      summarizeClassification ds ≠ .BREAKING) ↔ standsIn p.json q.json := by
  rw [compatible_iff_extends (marked_canonicalize hp) (marked_canonicalize hq), extends_iff_served hp hq]
  exact (standsIn_iff isPrintable p.wf).symm

theorem verdict_iff_standsIn_profile :
    let p : Payload := ⟨[("user", .obj [("id", .num (.int 1)), ("tags", .arr [.str "a"])]), ("meta", .obj [])], by decide⟩
    let q : Payload := ⟨[("user", .obj [("tags", .arr [.str "b", .null]), ("id", .num (.int 7))])], by decide⟩
    ∃ ds, diffAndClassify (fun _ => true) (canonicalize p.json) (canonicalize q.json) = .ok ds ∧
      summarizeClassification ds ≠ .BREAKING := by
  intro p q
  exact (verdict_iff_standsIn (fun _ => true) p q (by decide) (by decide)).mpr (by decide)

section Runs

open Registry RegistryTxn Runs TrackRuns VersionClassification

variable {ι : Type} [Fintype ι] [DecidableEq ι]

omit [Fintype ι] [DecidableEq ι] in
/-- What the registry stores of two payloads tells whether the second can stand in for the first. -/
theorem extends_stored_iff {c : TrackRuns.Config ι}
    (hjsonb : ∀ a b, a.wf → c.base.jsonb a = some b → pyEq a b = true)
    (hplain : ∀ i, plain (c.call i).payload) {i j : ι} {old new : Schema}
    (hi : c.base.jsonb (c.schema i) = some old) (hj : c.base.jsonb (c.schema j) = some new) :
    Extends c.base.isPrintable old new ↔ standsIn (c.call i).payload.json (c.call j).payload.json := by
  rw [standsIn_iff (v := (c.call i).payload.json) c.base.isPrintable (c.call i).payload.wf,
    ← extends_iff_served (hplain i) (hplain j)]
  apply forall_congr'
  intro path
  rw [typeAt_of_stored _ (hplain i) (pyEq_of_stored hjsonb hi), typeAt_of_stored _ (hplain j) (pyEq_of_stored hjsonb hj)]

/-- Whatever the interleaving and the failures: a version is recorded as BREAKING exactly when its payload
cannot stand in for that of the version before it, and as long as none is, the payload of a later version
can stand in for that of every earlier one. -/
theorem recorded_iff_standsIn (c : TrackRuns.Config ι)
    (hjsonb : ∀ a b, a.wf → c.base.jsonb a = some b → pyEq a b = true)
    (hplain : ∀ i, plain (c.call i).payload) (s : TrackRuns.State ι)
    (h : Reachable (TrackRuns.step c) always TrackRuns.init s) (r r' : SchemaVersionRecord)
    (hr : r ∈ s.registry.db.versions) (hr' : r' ∈ s.registry.db.versions)
    (hendpoint : r'.endpointId = r.endpointId) (i j : ι)
    (hi : c.base.jsonb (c.schema i) = some r.canonicalSchema)
    (hj : c.base.jsonb (c.schema j) = some r'.canonicalSchema) :
    (r'.version = r.version + 1 → (r'.compatibilityClassification = .BREAKING ↔
        ¬standsIn (c.call i).payload.json (c.call j).payload.json)) ∧
      (r.version < r'.version →
        (∀ v ∈ s.registry.db.versions, v.endpointId = r.endpointId → r.version < v.version →
          v.version ≤ r'.version → v.compatibilityClassification ≠ .BREAKING) →
        standsIn (c.call i).payload.json (c.call j).payload.json) := by
  rw [← extends_stored_iff hjsonb hplain hi hj]
  refine ⟨fun hnext => ?_, fun hlt hnone => ?_⟩
  · obtain ⟨hinv, hsourced⟩ := reachable_allSourced h
    have hexplained := explained_next hinv hr hr' hendpoint hnext
    rw [← not_breaking_iff_extends hjsonb hplain (hsourced.rows r hr) hexplained, not_not]
  · exact later_version_extends hjsonb hplain h hr hr' hendpoint hlt hnone

theorem recorded_iff_standsIn_widened :
    ∃ s, Reachable (TrackRuns.step (sampleConfig widenedSha256 some widened)) always TrackRuns.init s ∧
      ∃ r ∈ s.registry.db.versions, r.version = 2 ∧ r.compatibilityClassification = .RISKY ∧
        standsIn (widened false).payload.json (widened true).payload.json := by
  let c := sampleConfig widenedSha256 some widened
  have hmap : (run (TrackRuns.step c) always TrackRuns.init oneAfterTheOther).map
      (fun s => s.registry.db.versions.map fun r =>
        (r.endpointId, r.version, r.compatibilityClassification, r.canonicalSchema)) =
      some [(0, 1, .SAFE, c.schema false), (0, 2, .RISKY, c.schema true)] := by decide +kernel
  obtain ⟨s, hs, hv⟩ := Option.map_eq_some_iff.mp hmap
  have hreach := reachable_run (TrackRuns.step c) always .start hs
  have hrow : ∀ row ∈ [(0, 1, Compatibility.SAFE, c.schema false), (0, 2, .RISKY, c.schema true)],
      ∃ r ∈ s.registry.db.versions,
        (r.endpointId, r.version, r.compatibilityClassification, r.canonicalSchema) = row := by
    intro row hrow
    rw [← hv] at hrow
    exact List.mem_map.mp hrow
  obtain ⟨r, hr, heq⟩ := hrow _ List.mem_cons_self
  obtain ⟨r', hr', heq'⟩ := hrow _ (List.mem_cons_of_mem _ List.mem_cons_self)
  simp only [Prod.mk.injEq] at heq heq'
  refine ⟨s, hreach, r', hr', heq'.2.1, heq'.2.2.1, ?_⟩
  have hrecorded := (recorded_iff_standsIn c (fun a b ha hb => ?_) (by decide) s hreach r r' hr hr'
    (heq'.1.trans heq.1.symm) false true (congrArg some heq.2.2.2.symm)
    (congrArg some heq'.2.2.2.symm)).1 (by omega)
  · rw [heq'.2.2.1] at hrecorded
    by_contra hnot
    cases hrecorded.mpr hnot
  · cases hb
    exact pyEq_self ha

end Runs

end SchemaPilot.StandIn
