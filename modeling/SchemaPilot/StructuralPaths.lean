import SchemaPilot.Engine
import SchemaPilot.StructuralText

namespace SchemaPilot.StructuralPaths

open Keyed PrefixCode Canonical Classifier PayloadPaths StructuralType StructuralText Engine

theorem structuralDiff_eq_nil_iff (a b : Schema) :
    structuralDiff a b = [] ↔
      ∀ path, (flattenSchema "" a).lookup path = (flattenSchema "" b).lookup path := by
  rw [structuralDiff, List.filterMap_eq_nil_iff]
  simp only [List.mem_insertionSort, List.mem_dedup, List.mem_append]
  constructor
  · intro h path
    by_cases hm : path ∈ keys (flattenSchema "" a) ∨ path ∈ keys (flattenSchema "" b)
    · by_contra hne
      have hp := h path hm
      rw [if_neg hne] at hp
      cases hp
    · rw [not_or] at hm
      rw [(lookup_eq_none_iff_not_mem _ _).mpr hm.1, (lookup_eq_none_iff_not_mem _ _).mpr hm.2]
  · intro h path _
    rw [if_pos (h path)]

section Spots

mutual

/-- Every place of a schema the diff can see, in the order it is visited. -/
def spots : Schema → String → List (String × String)
  | .obj fields, pre => spotsFields fields pre
  | .arr items, pre => (pre, "array") :: spotsItems items pre 0
  | .null, pre => [(pre, leafText .null)]
  | .bool b, pre => [(pre, leafText (.bool b))]
  | .num n, pre => [(pre, leafText (.num n))]
  | .str s, pre => [(pre, leafText (.str s))]

def spotsFields : List (String × Schema) → String → List (String × String)
  | [], _ => []
  | (k, v) :: fields, pre => spots v (joinKey pre k) ++ spotsFields fields pre

def spotsItems : List Schema → String → Nat → List (String × String)
  | [], _, _ => []
  | x :: items, pre, i => spots x (joinItem pre i) ++ spotsItems items pre (i + 1)

end

theorem nodup_flattenSchema (pre : String) (s : Schema) : (keys (flattenSchema pre s)).Nodup := by
  have hfields : ∀ (fields : List (String × Schema)) (out : List (String × String)),
      (keys out).Nodup → (keys (flattenFields pre fields out)).Nodup := by
    intro fields
    induction fields with
    | nil => exact fun _ h => h
    | cons p fields ih => exact fun _ h => ih _ (nodup_update h _)
  have hitems : ∀ (items : List Schema) (i : Nat) (out : List (String × String)),
      (keys out).Nodup → (keys (flattenItems pre i items out)).Nodup := by
    intro items
    induction items with
    | nil => exact fun _ _ h => h
    | cons x items ih => exact fun _ _ h => ih _ _ (nodup_update h _)
  cases s with
  | null | bool _ | str _ => simp [flattenSchema]
  | num n => exact n.elim
  | arr items => exact hitems items 0 _ (by simp)
  | obj fields => exact hfields fields [] (by simp)

theorem lookup_update_flattenSchema (out : List (String × String)) (s : Schema) (pre path : String) :
    (update out (flattenSchema pre s)).lookup path =
      ((flattenSchema pre s).lookup path).or (out.lookup path) := by
  have hr : (keys (flattenSchema pre s).reverse).Nodup := by
    rw [keys, List.map_reverse]
    exact List.nodup_reverse.mpr (nodup_flattenSchema pre s)
  rw [lookup_update, lookup_perm hr (List.reverse_perm _)]

/-- The flattened schema holds at each path what the last place written there holds. -/
theorem lookup_flattenSchema (s : Schema) (pre path : String) :
    (flattenSchema pre s).lookup path = (spots s pre).reverse.lookup path := by
  induction s using JsonOf.induct generalizing pre with
  | null | bool _ | str _ => rfl
  | num n => exact n.elim
  | arr items ih =>
    have hitems : ∀ xs : List Schema, (∀ x ∈ xs, x ∈ items) → ∀ i out,
        (flattenItems pre i xs out).lookup path =
          ((spotsItems xs pre i).reverse.lookup path).or (out.lookup path) := by
      intro xs hxs
      induction xs with
      | nil => intro i out; rfl
      | cons x xs ihx =>
        intro i out
        obtain ⟨hx, hxs⟩ := List.forall_mem_cons.mp hxs
        change (flattenItems pre (i + 1) xs (update out (flattenSchema (joinItem pre i) x))).lookup path = _
        rw [ihx hxs, lookup_update_flattenSchema, ih x hx, spotsItems, List.reverse_append,
          List.lookup_append, Option.or_assoc]
    rw [flattenSchema, hitems items (fun _ h => h), spots, List.reverse_cons, List.lookup_append]
  | obj fields ih =>
    have hfields : ∀ fs : List (String × Schema), (∀ p ∈ fs, p ∈ fields) → ∀ out,
        (flattenFields pre fs out).lookup path =
          ((spotsFields fs pre).reverse.lookup path).or (out.lookup path) := by
      intro fs hfs
      induction fs with
      | nil => intro out; rfl
      | cons p fs ihp =>
        intro out
        obtain ⟨k, v⟩ := p
        obtain ⟨hp, hfs⟩ := List.forall_mem_cons.mp hfs
        change (flattenFields pre fs (update out (flattenSchema (joinKey pre k) v))).lookup path = _
        rw [ihp hfs, lookup_update_flattenSchema, ih (k, v) hp, spotsFields, List.reverse_append,
          List.lookup_append, Option.or_assoc]
    rw [flattenSchema, hfields fields (fun _ h => h), spots, List.lookup_nil, Option.or_none]

theorem mem_spotsFields (fields : List (String × Schema)) (pre : String) (e : String × String) :
    e ∈ spotsFields fields pre ↔ ∃ p ∈ fields, e ∈ spots p.2 (joinKey pre p.1) := by
  induction fields with
  | nil => simp [spotsFields]
  | cons p fields ih => simp [spotsFields, ih]

theorem mem_spotsItems (items : List Schema) (pre : String) (i : Nat) (e : String × String) :
    e ∈ spotsItems items pre i ↔
      ∃ n x, items[n]? = some x ∧ e ∈ spots x (joinItem pre (i + n)) := by
  induction items generalizing i with
  | nil => simp [spotsItems]
  | cons x items ih =>
    rw [spotsItems, List.mem_append, ih]
    constructor
    · rintro (h | ⟨n, y, hy, h⟩)
      · exact ⟨0, x, rfl, h⟩
      · exact ⟨n + 1, y, hy, by rwa [Nat.add_right_comm, Nat.add_assoc] at h⟩
    · rintro ⟨_ | n, y, hy, h⟩
      · obtain rfl : x = y := Option.some.inj hy
        exact .inl h
      · exact .inr ⟨n, y, hy, by rwa [Nat.add_right_comm, Nat.add_assoc]⟩

end Spots

/-- What the diff sees of one payload value: of an object only its members. -/
def nameOf : Json → Option String
  | .obj _ => none
  | .arr _ => some "array"
  | j => some (primitiveType j)

def nameAt (j : Json) (loc : List Step) : Option String := (valueAt j loc).bind nameOf

theorem nameAt_arr (items : List Json) (loc : List Step) :
    nameAt (.arr items) loc =
      match loc with
      | [] => some "array"
      | .item i :: loc => items[i]?.bind (nameAt · loc)
      | .key _ :: _ => none := by
  obtain _ | ⟨k | i, loc⟩ := loc
  · rfl
  · rfl
  · simp only [nameAt, valueAt]
    cases items[i]? <;> rfl

theorem nameAt_obj (fields : List (String × Json)) (loc : List Step) :
    nameAt (.obj fields) loc =
      match loc with
      | .key k :: loc => (fields.lookup k).bind (nameAt · loc)
      | _ => none := by
  obtain _ | ⟨k | i, loc⟩ := loc
  · rfl
  · simp only [nameAt, valueAt]
    cases fields.lookup k <;> rfl
  · rfl

theorem nameAt_scalar {j : Json} {k : ScalarKind} (h : shape j = .scalar k) (loc : List Step) :
    nameAt j loc = match loc with | [] => some (primitiveType j) | _ :: _ => none := by
  obtain _ | ⟨step, loc⟩ := loc
  · cases j with
    | arr items | obj fields => simp [shape] at h
    | null | bool b | num n | str s => rfl
  · cases j with
    | arr items | obj fields => simp [shape] at h
    | null | bool b | num n | str s => cases step <;> rfl

theorem spots_scalar {j : Json} {k : ScalarKind} (h : shape j = .scalar k) (pre : String) :
    spots (normalizeTypes j) pre = [(pre, primitiveType j)] := by
  cases j with
  | arr items | obj fields => simp [shape] at h
  | null | bool b | num n | str s => rfl

/-- The places of a payload are its locations that are no object. -/
theorem mem_spots_iff {j : Json} (hwf : j.wf) (pre path t : String) :
    (path, t) ∈ spots (normalizeTypes j) pre ↔
      ∃ loc, nameAt j loc = some t ∧ path = render pre loc := by
  induction j using payload_induct generalizing pre with
  | scalar j k hs hc =>
    rw [spots_scalar hs, List.mem_singleton, Prod.mk.injEq]
    simp only [nameAt_scalar hs]
    constructor
    · rintro ⟨rfl, rfl⟩
      exact ⟨[], rfl, rfl⟩
    · rintro ⟨_ | ⟨s, loc⟩, hl, rfl⟩
      · exact ⟨rfl, (Option.some.inj hl).symm⟩
      · cases hl
  | arr items ih =>
    have hws := (JsonOf.wf_arr_iff items).mp hwf
    rw [normalizeTypes, spots, List.mem_cons, mem_spotsItems, normalizeItems_eq]
    constructor
    · rintro (h | ⟨n, s, hn, h⟩)
      · obtain ⟨rfl, rfl⟩ := Prod.mk.inj h
        exact ⟨[], rfl, rfl⟩
      · obtain ⟨x, hx, rfl⟩ : ∃ x, items[n]? = some x ∧ normalizeTypes x = s := by simpa using hn
        have hm := List.mem_of_getElem? hx
        obtain ⟨loc, hl, hr⟩ := (ih x hm (hws x hm) _).mp h
        refine ⟨.item n :: loc, by rw [nameAt_arr]; simpa [hx] using hl, ?_⟩
        rw [hr, Nat.zero_add, render]
    · rintro ⟨loc, hl, rfl⟩
      rw [nameAt_arr] at hl
      obtain _ | ⟨k | n, loc⟩ := loc
      · cases hl
        exact .inl rfl
      · cases hl
      · obtain ⟨x, hx, hl⟩ := Option.bind_eq_some_iff.mp hl
        have hm := List.mem_of_getElem? hx
        refine .inr ⟨n, normalizeTypes x, by simp [hx], ?_⟩
        rw [Nat.zero_add]
        exact (ih x hm (hws x hm) _).mpr ⟨loc, hl, rfl⟩
  | obj fields ih =>
    obtain ⟨hn, hws⟩ := (JsonOf.wf_obj_iff fields).mp hwf
    rw [normalizeTypes, spots, mem_spotsFields]
    simp only [mem_sortByKey, normalizeFields_eq, List.mem_map, exists_exists_and_eq_and]
    constructor
    · rintro ⟨⟨k, v⟩, hm, h⟩
      obtain ⟨loc, hl, hr⟩ := (ih _ hm (hws _ hm) _).mp h
      refine ⟨.key k :: loc, ?_, hr⟩
      rw [nameAt_obj]
      simpa [(lookup_eq_some_iff_mem hn).mpr hm] using hl
    · rintro ⟨loc, hl, rfl⟩
      rw [nameAt_obj] at hl
      obtain _ | ⟨k | n, loc⟩ := loc
      · cases hl
      · obtain ⟨v, hv, hl⟩ := Option.bind_eq_some_iff.mp hl
        have hm := mem_of_lookup hv
        exact ⟨(k, v), hm, (ih _ hm (hws _ hm) _).mpr ⟨loc, hl, rfl⟩⟩
      · cases hl

/-- A key that does not look like a piece of path text. -/
def pathKey (k : String) : Bool := k ≠ "" && '.' ∉ k.toList && '[' ∉ k.toList

theorem pathKey_iff (k : String) : pathKey k ↔ k ≠ "" ∧ '.' ∉ k.toList ∧ '[' ∉ k.toList := by
  simp only [pathKey, Bool.and_eq_true, decide_eq_true_eq, and_assoc]

/-- A location below the root object. -/
def PathLocation (loc : List Step) : Prop :=
  (∃ k rest, loc = .key k :: rest) ∧ ∀ k, .key k ∈ loc → pathKey k

theorem render_injective {loc loc' : List Step} (h : PathLocation loc) (h' : PathLocation loc')
    (he : render "" loc = render "" loc') : loc = loc' := by
  have hchars : ∀ {l : List Step}, PathLocation l → '.' :: (render "" l).toList = l.flatMap stepChars := by
    rintro l ⟨⟨k, rest, rfl⟩, hk⟩
    exact render_root_toList ((pathKey_iff k).mp (hk k List.mem_cons_self)).1 rest
  have hblock : ∀ {l : List Step}, PathLocation l → ∀ s ∈ l, Block stepMark (stepChars s) := by
    intro l hl s hs
    apply stepChars_block_of_key
    rintro k rfl
    exact ((pathKey_iff k).mp (hl.2 k hs)).2
  exact flatMap_block_inj stepMark (hblock h) (hblock h') (fun _ _ _ _ => stepChars_injective)
    (by rw [← hchars h, ← hchars h', he])

theorem pathLocation_of_nameAt {p : Payload} (h : keysAll pathKey p.json) {loc : List Step} {t : String}
    (hn : nameAt p.json loc = some t) : PathLocation loc := by
  constructor
  · rw [Payload.json, nameAt_obj] at hn
    obtain _ | ⟨k | i, loc⟩ := loc
    · cases hn
    · exact ⟨k, loc, rfl⟩
    · cases hn
  · obtain ⟨v, hv, -⟩ := Option.bind_eq_some_iff.mp hn
    exact key_of_valueAt h hv

/-- The flattening loses nothing at the locations of a payload whose keys are no path text. -/
theorem lookup_render {p : Payload} (h : keysAll pathKey p.json) {loc : List Step} (hl : PathLocation loc) :
    (flattenSchema "" (normalizeTypes p.json)).lookup (render "" loc) = nameAt p.json loc := by
  have back : ∀ t, (flattenSchema "" (normalizeTypes p.json)).lookup (render "" loc) = some t →
      nameAt p.json loc = some t := by
    intro t ht
    rw [lookup_flattenSchema] at ht
    obtain ⟨loc', hn, hr⟩ := (mem_spots_iff p.wf "" _ t).mp (List.mem_reverse.mp (mem_of_lookup ht))
    rwa [render_injective hl (pathLocation_of_nameAt h hn) hr]
  cases hn : nameAt p.json loc with
  | none =>
    apply Option.eq_none_iff_forall_not_mem.mpr
    intro t ht
    rw [back t ht] at hn
    cases hn
  | some t =>
    have hm : (render "" loc, t) ∈ (spots (normalizeTypes p.json) "").reverse :=
      List.mem_reverse.mpr ((mem_spots_iff p.wf "" _ t).mpr ⟨loc, hn, rfl⟩)
    have hs : ((flattenSchema "" (normalizeTypes p.json)).lookup (render "" loc)).isSome := by
      rw [lookup_flattenSchema]
      exact (lookup_isSome_iff_mem_keys _ _).mpr (List.mem_map.mpr ⟨_, hm, rfl⟩)
    obtain ⟨t', ht'⟩ := Option.isSome_iff_exists.mp hs
    rw [ht', ← back t' ht', hn]

/-- The leaf that the registry's diff sees where this one sees a name. -/
def markOfName : String → Schema
  | "array" => arrayMarker
  | "null" => leafOf .null
  | "bool" => leafOf .boolean
  | "int" => leafOf .integer
  | "float" => leafOf .number
  | _ => leafOf .string

theorem markOf_eq (j : Json) : markOf j = (nameOf j).map markOfName := by
  cases j with
  | num n => cases n <;> rfl
  | null | bool b | str s | arr items | obj fields => rfl

theorem markAt_eq (j : Json) (loc : List Step) : markAt j loc = (nameAt j loc).map markOfName := by
  rw [markAt, nameAt, Option.map_bind]
  congr 1
  funext v
  exact markOf_eq v

theorem shape_eq_of_structuralDiff {p q : Payload} (hp : keysAll pathKey p.json) (hq : keysAll pathKey q.json)
    (hfp : filled p.json) (hfq : filled q.json)
    (h : structuralDiff (normalizeTypes p.json) (normalizeTypes q.json) = []) :
    shape p.json = shape q.json := by
  have hlookup := (structuralDiff_eq_nil_iff _ _).mp h
  apply shape_eq_of_markAt hfp hfq
  intro loc
  rw [markAt_eq, markAt_eq]
  congr 1
  by_cases hl : PathLocation loc
  · rw [← lookup_render hp hl, ← lookup_render hq hl, hlookup]
  · have hnone : ∀ {r : Payload}, keysAll pathKey r.json → nameAt r.json loc = none := by
      intro r hr
      apply Option.eq_none_iff_forall_not_mem.mpr
      exact fun t ht => hl (pathLocation_of_nameAt hr ht)
    rw [hnone hp, hnone hq]

def kindName : ScalarKind → String
  | .null => "null"
  | .boolean => "bool"
  | .integer => "int"
  | .number => "float"
  | .string => "string"

theorem kindName_injective {k l : ScalarKind} (h : kindName k = kindName l) : k = l := by
  cases k <;> cases l <;> first | rfl | exact absurd h (by decide)

theorem normalizeTypes_scalar {j : Json} {k : ScalarKind} (h : shape j = .scalar k) :
    normalizeTypes j = .str (kindName k) := by
  cases j with
  | arr items | obj fields => simp [shape] at h
  | num n => cases n <;> cases h <;> rfl
  | null | bool b | str s =>
    cases h
    rfl

/-- The normalised types tell payload values apart exactly when their shapes do. -/
theorem normalizeTypes_eq_iff (p q : Json) (hp : p.wf) (hq : q.wf) :
    normalizeTypes p = normalizeTypes q ↔ shape p = shape q := by
  induction p using payload_induct generalizing q with
  | scalar p k hs hc =>
    rw [normalizeTypes_scalar hs, hs]
    obtain ⟨l, hsl, -⟩ | ⟨ys, rfl⟩ | ⟨gs, rfl⟩ := payload_cases q
    · rw [normalizeTypes_scalar hsl, hsl, Shape.scalar.injEq, JsonOf.str.injEq]
      exact ⟨kindName_injective, fun h => by rw [h]⟩
    · simp [normalizeTypes, shape]
    · simp [normalizeTypes, shape]
  | arr xs ih =>
    obtain ⟨l, hsl, -⟩ | ⟨ys, rfl⟩ | ⟨gs, rfl⟩ := payload_cases q
    · simp [normalizeTypes_scalar hsl, hsl, normalizeTypes, shape]
    · have hxs := (JsonOf.wf_arr_iff xs).mp hp
      have hys := (JsonOf.wf_arr_iff ys).mp hq
      rw [normalizeTypes, normalizeTypes, normalizeItems_eq, normalizeItems_eq, shape, shape, shapeItems_eq,
        shapeItems_eq, JsonOf.arr.injEq, Shape.array.injEq]
      exact map_eq_map_congr fun x hx y hy => ih x hx y (hxs x hx) (hys y hy)
    · simp [normalizeTypes, shape]
  | obj fs ih =>
    obtain ⟨hn, hfs⟩ := (JsonOf.wf_obj_iff fs).mp hp
    obtain ⟨l, hsl, -⟩ | ⟨ys, rfl⟩ | ⟨gs, rfl⟩ := payload_cases q
    · simp [normalizeTypes_scalar hsl, hsl, normalizeTypes, shape]
    · simp [normalizeTypes, shape]
    · obtain ⟨hm, hgs⟩ := (JsonOf.wf_obj_iff gs).mp hq
      rw [normalizeTypes, normalizeTypes, JsonOf.obj.injEq, normalizeFields_eq, normalizeFields_eq,
        sortByKey_eq_iff (by rwa [keys_map_snd]) (by rwa [keys_map_snd]), shape, shape, Shape.object.injEq,
        funext_iff]
      refine forall_congr' fun k => ?_
      rw [lookup_map_snd, lookup_map_snd, shapeFields_eq, shapeFields_eq]
      exact option_map_eq_congr fun v hv w hw =>
        ih (k, v) (mem_of_lookup hv) w (hfs _ (mem_of_lookup hv)) (hgs _ (mem_of_lookup hw))

/-- On such payloads an empty difference means the same types at the same places. -/
theorem structuralDiff_eq_nil_iff_normalizeTypes {p q : Payload} (hp : keysAll pathKey p.json)
    (hq : keysAll pathKey q.json) (hfp : filled p.json) (hfq : filled q.json) :
    structuralDiff (normalizeTypes p.json) (normalizeTypes q.json) = [] ↔
      normalizeTypes p.json = normalizeTypes q.json := by
  constructor
  · intro h
    exact (normalizeTypes_eq_iff _ _ p.wf q.wf).mpr (shape_eq_of_structuralDiff hp hq hfp hfq h)
  · intro h
    rw [h]
    exact (structuralDiff_eq_nil_iff _ _).mpr fun _ => rfl

end SchemaPilot.StructuralPaths
