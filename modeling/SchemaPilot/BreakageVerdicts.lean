import SchemaPilot.Coverage
import SchemaPilot.StructuralPaths

namespace SchemaPilot.BreakageVerdicts

open Keyed Canonical Classifier PayloadPaths DiffReport Coverage StructuralType StructuralText StructuralPaths
  Engine

/-- The engine of the legacy tables finds a BREAKING item between the two payloads. -/
def engineBreaking (p q : Payload) : Prop :=
  ∃ item ∈ classifyContractDrift (structuralDiff (normalizeTypes p.json) (normalizeTypes q.json)),
    item.severity = some .BREAKING

/-- The registry's classifier summarizes the step between the two payloads as BREAKING. -/
def registryBreaking (isPrintable : Char → Bool) (p q : Payload) : Prop :=
  ∃ diffs, diffAndClassify isPrintable (canonicalize p.json) (canonicalize q.json) = .ok diffs ∧
    summarizeClassification diffs = .BREAKING

/-- The type name the engine has for a payload at a path text. -/
def named (p : Payload) (path : String) : Option String :=
  (flattenSchema "" (normalizeTypes p.json)).lookup path

/-- A leaf or an array goes away, or a scalar other than null becomes one of another
type, unless it is an integer that becomes a float. -/
def loses : Option String → Option String → Bool
  | some _, none => true
  | some old, some new =>
    old ∈ primitiveTypes && new ∈ primitiveTypes && old ≠ new && !(old = "int" && new = "float")
  | none, _ => false

/-- A null or an array is exchanged for a leaf or an array of another type, or the other way. -/
def exchanges : Option String → Option String → Bool
  | some old, some new => old ≠ new && [old, new].any (fun t => t = "null" || t = "array")
  | _, _ => false

/-- A key that neither vanishes from path texts nor passes for schema metadata. -/
def labelKey (k : String) : Bool := k ≠ "" && k ≠ "type"

section Engine

theorem mem_structuralDiff (a b : Schema) (item : DriftItem) :
    item ∈ structuralDiff a b ↔
      ∃ path, (flattenSchema "" a).lookup path ≠ (flattenSchema "" b).lookup path ∧
        item = ⟨path, (flattenSchema "" a).lookup path, (flattenSchema "" b).lookup path, none⟩ := by
  simp only [structuralDiff, List.mem_filterMap, List.mem_insertionSort, List.mem_dedup, List.mem_append]
  constructor
  · rintro ⟨path, -, h⟩
    split at h
    · cases h
    · next hne => exact ⟨path, hne, (Option.some.inj h).symm⟩
  · rintro ⟨path, hne, rfl⟩
    refine ⟨path, ?_, if_neg hne⟩
    by_contra hm
    rw [not_or, ← lookup_eq_none_iff_not_mem, ← lookup_eq_none_iff_not_mem] at hm
    exact hne (hm.1.trans hm.2.symm)

theorem named_mem {p : Payload} {path t : String} (h : named p path = some t) :
    ∃ loc, nameAt p.json loc = some t ∧ path = render "" loc := by
  rw [named, lookup_flattenSchema] at h
  exact (mem_spots_iff p.wf "" path t).mp (List.mem_reverse.mp (mem_of_lookup h))

def names : List String := ["array", "null", "bool", "int", "float", "string"]

theorem mem_names {j : Json} {loc : List Step} {t : String} (h : nameAt j loc = some t) :
    t ∈ names := by
  obtain ⟨v, -, hv⟩ := Option.bind_eq_some_iff.mp h
  cases v with
  | obj fields => cases hv
  | num n => cases n <;> cases hv <;> simp [names, primitiveType]
  | null | bool b | str s | arr items => cases hv; simp [names, primitiveType]

theorem mem_names_of_named {p : Payload} {path t : String} (h : named p path = some t) :
    t ∈ names := by
  obtain ⟨loc, hl, -⟩ := named_mem h
  exact mem_names hl

theorem classifyRiskyMutation_some (path old new : String) :
    classifyRiskyMutation ⟨path, some old, some new, none⟩ =
      ⟨path, some old, some new,
        if old ∈ primitiveTypes ∧ new ∈ primitiveTypes ∧ old ≠ new then
          if old = "int" ∧ new = "float" then some .RISKY else some .BREAKING
        else none⟩ := by
  simp only [classifyRiskyMutation]
  split_ifs <;> rfl

/-- No type name says `nullable_`, so a place named on both sides keeps its severity. -/
theorem classifyBreakingChange_some {old : String} (h : old ∈ names) (path new : String)
    (severity : Option ChangeSeverity) :
    classifyBreakingChange ⟨path, some old, some new, severity⟩ = ⟨path, some old, some new, severity⟩ := by
  have hrequired : ∀ t ∈ names, requiredOld t = none := by decide
  cases severity with
  | none => simp [classifyBreakingChange, hrequired old h]
  | some c => rfl

/-- The engine calls an item of two type names BREAKING when a place is lost or retyped. -/
theorem classified_breaking_iff {old new : Option String} (path : String)
    (hold : ∀ t ∈ old, t ∈ names)
    (hne : old ≠ new) :
    (classifyBreakingChange (classifyRiskyMutation (classifySafeChange ⟨path, old, new, none⟩))).severity =
      some .BREAKING ↔ loses old new := by
  cases old with
  | none =>
    cases new with
    | none => exact absurd rfl hne
    | some new => simp [classifySafeChange, classifyRiskyMutation, classifyBreakingChange, loses]
  | some old =>
    cases new with
    | none => simp [classifySafeChange, classifyRiskyMutation, classifyBreakingChange, loses]
    | some new =>
      have hsafe : classifySafeChange ⟨path, some old, some new, none⟩ = ⟨path, some old, some new, none⟩ := rfl
      rw [hsafe, classifyRiskyMutation_some, classifyBreakingChange_some (hold old rfl)]
      simp only [loses, Bool.and_eq_true, Bool.not_eq_true', decide_eq_true_eq, and_assoc]
      split_ifs <;> simp_all

theorem loses_ne {old new : Option String} (h : loses old new) : old ≠ new := by
  rintro rfl
  cases old <;> simp [loses] at h

theorem engineBreaking_iff (p q : Payload) :
    engineBreaking p q ↔ ∃ path, loses (named p path) (named q path) := by
  have hitem : ∀ path, named p path ≠ named q path →
      ((classifyBreakingChange (classifyRiskyMutation (classifySafeChange
        ⟨path, named p path, named q path, none⟩))).severity = some .BREAKING ↔
      loses (named p path) (named q path)) := fun path hne =>
    classified_breaking_iff path (fun t ht => mem_names_of_named ht) hne
  simp only [engineBreaking, classifyContractDrift, List.map_map, List.mem_map, mem_structuralDiff]
  constructor
  · rintro ⟨_, ⟨_, ⟨path, hne, rfl⟩, rfl⟩, hs⟩
    exact ⟨path, (hitem path hne).mp hs⟩
  · rintro ⟨path, h⟩
    exact ⟨_, ⟨_, ⟨path, loses_ne h, rfl⟩, rfl⟩, (hitem path (loses_ne h)).mpr h⟩

end Engine

section Registry

/-- Without a key `type` the registry visits the places that the engine visits. -/
theorem places_canonicalize {j : Json} (h : keysAll labelKey j) (pre : String) :
    places (canonicalize j) pre =
      (spots (normalizeTypes j) pre).map (fun e => (orRoot e.1, markOfName e.2)) := by
  induction j using payload_induct generalizing pre with
  | scalar j k hs hc =>
    have hp : places (leafOf k) pre = [(orRoot pre, leafOf k)] := by cases k <;> rfl
    have hm := markAt_eq j []
    rw [markAt_scalar hs, nameAt_scalar hs] at hm
    rw [hc, hp, spots_scalar hs, Option.some.inj hm]
    rfl
  | arr items ih =>
    have hitems : ∀ xs : List Json, (∀ x ∈ xs, x ∈ items) → ∀ i,
        placesItems (xs.map canonicalize) pre i =
          (spotsItems (xs.map normalizeTypes) pre i).map (fun e => (orRoot e.1, markOfName e.2)) := by
      intro xs hxs
      induction xs with
      | nil => exact fun _ => rfl
      | cons x xs ihx =>
        intro i
        obtain ⟨hx, hxs⟩ := List.forall_mem_cons.mp hxs
        rw [List.map_cons, placesItems, ih x hx ((keysAll_arr_iff _ items).mp h x hx), ihx hxs, List.map_cons,
          spotsItems, List.map_append]
    rw [canonicalize, canonicalizeItems_eq, places, hitems items (fun _ hx => hx), normalizeTypes,
      normalizeItems_eq, spots, List.map_cons]
    rfl
  | obj fields ih =>
    have hkeys := (keysAll_obj_iff _ fields).mp h
    have htype : ∀ p ∈ fields, p.1 ≠ "type" := by
      intro p hp
      have hk := (hkeys p hp).1
      simp only [labelKey, Bool.and_eq_true, decide_eq_true_eq] at hk
      exact hk.2
    have hfields : ∀ fs : List (String × Json), (∀ p ∈ fs, p ∈ fields) →
        placesFields (fs.map (fun p => (p.1, canonicalize p.2))) pre =
          (spotsFields (fs.map (fun p => (p.1, normalizeTypes p.2))) pre).map
            (fun e => (orRoot e.1, markOfName e.2)) := by
      intro fs hfs
      induction fs with
      | nil => rfl
      | cons p fs ihp =>
        obtain ⟨hp, hfs⟩ := List.forall_mem_cons.mp hfs
        rw [List.map_cons, placesFields, ih p hp (hkeys p hp).2, ihp hfs, List.map_cons, spotsFields,
          List.map_append]
    rw [canonicalize, places, lookup_type_eq_none htype, Option.isSome_none, if_neg Bool.false_ne_true,
      canonicalizeFields_eq, sortByKey_map_snd, hfields _ (fun p hp => (mem_sortByKey _ _).mp hp),
      normalizeTypes, normalizeFields_eq, sortByKey_map_snd, spots]

theorem path_ne_empty {p : Payload} (h : keysAll labelKey p.json) {e : String × String}
    (he : e ∈ spots (normalizeTypes p.json) "") : e.1 ≠ "" := by
  obtain ⟨loc, hl, hr⟩ := (mem_spots_iff p.wf "" e.1 e.2).mp he
  obtain ⟨v, hv, hn⟩ := Option.bind_eq_some_iff.mp hl
  obtain _ | ⟨k | i, rest⟩ := loc
  · cases hv
    cases hn
  · have hk := key_of_valueAt h hv k List.mem_cons_self
    simp only [labelKey, Bool.and_eq_true, decide_eq_true_eq] at hk
    rw [hr]
    exact render_ne_empty hk.1 rest
  · cases hv

theorem shown_eq {p : Payload} (h : keysAll labelKey p.json) (path : String) :
    shown p path = (named p path).map markOfName := by
  have hroot : (spots (normalizeTypes p.json) "").map (fun e => (orRoot e.1, markOfName e.2)) =
      (spots (normalizeTypes p.json) "").map (fun e => (e.1, markOfName e.2)) := by
    apply List.map_congr_left
    intro e he
    rw [orRoot, if_neg (path_ne_empty h he)]
  rw [shown, shows, places_canonicalize h, hroot, ← List.map_reverse, lookup_map_snd, named, lookup_flattenSchema]

theorem typeOf_markOfName (isPrintable : Char → Bool) (t : String) :
    typeOf isPrintable (markOfName t) = typeOf (fun _ => true) (markOfName t) := by
  unfold markOfName
  split <;> rfl

theorem required_markOfName (t : String) : requiredOf (markOfName t) true = true := by
  unfold markOfName
  split <;> rfl

/-- The registry's rules over type names: what is lost, and every exchange of a null or an array. -/
theorem breaking_markOfName (isPrintable : Char → Bool) {old new : Option String}
    (hold : ∀ t ∈ old, t ∈ names) (hnew : ∀ t ∈ new, t ∈ names) :
    pyEqOption (old.map markOfName) (new.map markOfName) = false ∧
        breaking isPrintable (old.map markOfName) (new.map markOfName) ↔
      loses old new ∨ exchanges old new := by
  cases old with
  | none => simp [breaking, loses, exchanges]
  | some old =>
    cases new with
    | none => simp [pyEqOption, breaking, loses, required_markOfName]
    | some new =>
      have hpairs : ∀ a ∈ names, ∀ b ∈ names,
          (pyEqOption (some (markOfName a)) (some (markOfName b)) = false ∧
              breaking (fun _ => true) (some (markOfName a)) (some (markOfName b)) ↔
            loses (some a) (some b) ∨ exchanges (some a) (some b)) := by decide
      simp only [Option.map_some, breaking, typeOf_markOfName isPrintable]
      exact hpairs old (hold old rfl) new (hnew new rfl)

theorem comparable_of_labelKey (isPrintable : Char → Bool) {p : Payload}
    (hp : keysAll labelKey p.json)
    (q : Payload) : Comparable isPrintable p q := by
  intro path _
  rw [shown_eq hp]
  cases named p path with
  | none => rfl
  | some t =>
    have henum : get (markOfName t) "enum" = none := by
      unfold markOfName
      split <;> rfl
    cases shown q path with
    | none => rfl
    | some new => simp [clash, enumsUnhashable, henum]

end Registry

/-- Where no key is a piece of path text, the path texts stand for the locations of the payloads. -/
theorem exists_named_iff {p q : Payload} (hp : keysAll pathKey p.json) (hq : keysAll pathKey q.json)
    {changes : Option String → Option String → Bool} (hchanges : ∀ new, changes none new = false) :
    (∃ path, changes (named p path) (named q path)) ↔
      ∃ loc, changes (nameAt p.json loc) (nameAt q.json loc) := by
  constructor
  · rintro ⟨path, h⟩
    cases ht : named p path with
    | none => simp [ht, hchanges] at h
    | some t =>
      obtain ⟨loc, hl, rfl⟩ := named_mem ht
      have hloc := pathLocation_of_nameAt hp hl
      exact ⟨loc, by rwa [← lookup_render hp hloc, ← lookup_render hq hloc]⟩
  · rintro ⟨loc, h⟩
    cases hl : nameAt p.json loc with
    | none => simp [hl, hchanges] at h
    | some t =>
      have hloc := pathLocation_of_nameAt hp hl
      exact ⟨render "" loc, by rwa [named, named, lookup_render hp hloc, lookup_render hq hloc]⟩

/-- On payloads without the keys `type` and the empty one, the engine's BREAKING verdicts are the
registry's over leaves and arrays that are lost and scalars that are retyped. The registry also
has the exchanges of a null or an array, which the engine leaves unclassified. -/
theorem registryBreaking_iff (isPrintable : Char → Bool) (p q : Payload)
    (hp : keysAll labelKey p.json)
    (hq : keysAll labelKey q.json) :
    (engineBreaking p q ↔ ∃ path, loses (named p path) (named q path)) ∧
    (registryBreaking isPrintable p q ↔
      engineBreaking p q ∨ ∃ path, exchanges (named p path) (named q path)) ∧
    (keysAll pathKey p.json → keysAll pathKey q.json →
      ((∃ path, loses (named p path) (named q path)) ↔
        ∃ loc, loses (nameAt p.json loc) (nameAt q.json loc)) ∧
      ((∃ path, exchanges (named p path) (named q path)) ↔
        ∃ loc, exchanges (nameAt p.json loc) (nameAt q.json loc))) := by
  refine ⟨engineBreaking_iff p q, ?_, fun hpp hpq => ⟨?_, ?_⟩⟩
  · simp only [registryBreaking, summarize_eq_breaking_iff, reports_breaking_iff, engineBreaking_iff,
      comparable_of_labelKey isPrintable hp q, true_and, Differs, shown_eq hp, shown_eq hq, ← exists_or]
    apply exists_congr
    intro path
    exact breaking_markOfName isPrintable (fun t ht => mem_names_of_named ht) fun t ht => mem_names_of_named ht
  · exact exists_named_iff hpp hpq fun _ => rfl
  · exact exists_named_iff hpp hpq fun _ => rfl

theorem registryBreaking_iff_null_member :
    let p : Payload := ⟨[("id", .num (.int 1)), ("tags", .null)], by decide⟩
    let q : Payload := ⟨[("id", .num (.int 1)), ("tags", .arr [.str "new"])], by decide⟩
    registryBreaking (fun _ => true) p q ∧ ¬engineBreaking p q := by
  intro p q
  obtain ⟨-, hregistry, hlocations⟩ := registryBreaking_iff (fun _ => true) p q (by decide) (by decide)
  refine ⟨hregistry.mpr (.inr ((hlocations (by decide) (by decide)).2.mpr ⟨[.key "tags"], by decide⟩)), ?_⟩
  rintro ⟨item, hi, hs⟩
  have hnone : ∀ item ∈ classifyContractDrift (structuralDiff (normalizeTypes p.json) (normalizeTypes q.json)),
      item.severity ≠ some .BREAKING := by decide
  exact hnone item hi hs

/-- A member that turns null is BREAKING for the registry and unclassified by the engine. -/
theorem verdicts_differ_null_member :
    ¬∀ (isPrintable : Char → Bool) (p q : Payload), engineBreaking p q ↔ registryBreaking isPrintable p q := by
  intro h
  let p : Payload := ⟨[("a", .num (.int 1))], by decide⟩
  let q : Payload := ⟨[("a", .null)], by decide⟩
  have hregistry : registryBreaking (fun _ => true) p q := ⟨_, rfl, by decide⟩
  obtain ⟨item, hi, hs⟩ := (h _ p q).mpr hregistry
  have hnone : ∀ item ∈ classifyContractDrift (structuralDiff (normalizeTypes p.json) (normalizeTypes q.json)),
      item.severity ≠ some .BREAKING := by decide
  exact hnone item hi hs

end SchemaPilot.BreakageVerdicts
