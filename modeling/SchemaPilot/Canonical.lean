import SchemaPilot.Digest
import SchemaPilot.JsonText

namespace SchemaPilot.Canonical

open Keyed JsonText Digest

def leaf (type : String) (nullable : Bool) : Schema :=
  .obj [("type", .str type), ("nullable", .bool nullable)]

mutual

def canonicalize : Json → Schema
  | .obj fields => .obj (sortByKey (canonicalizeFields fields))
  | .arr items => .arr (canonicalizeItems items)
  | .null => leaf "null" true
  | .bool _ => leaf "boolean" false
  | .num (.int _) => leaf "integer" false
  | .num (.float _) => leaf "number" false
  | .str _ => leaf "string" false

def canonicalizeItems : List Json → List Schema
  | [] => []
  | x :: items => canonicalize x :: canonicalizeItems items

def canonicalizeFields : List (String × Json) → List (String × Schema)
  | [] => []
  | (k, v) :: fields => (k, canonicalize v) :: canonicalizeFields fields

end

/-- The digest is taken over the UTF-8 bytes of the sorted compact text. -/
def fingerprint (sha256 : ByteArray → String) (canonicalSchema : Schema) : String :=
  sha256 (dumpsSorted canonicalSchema).toUTF8

inductive ScalarKind where
  | null | boolean | integer | number | string
  deriving DecidableEq

/-- What the registry is meant to observe of a payload: kinds at the scalars, the
elements of an array in order, and the members of an object as a finite map. -/
inductive Shape where
  | scalar (kind : ScalarKind)
  | array (items : List Shape)
  | object (fields : String → Option Shape)

mutual

def shape : Json → Shape
  | .obj fields => .object (shapeFields fields)
  | .arr items => .array (shapeItems items)
  | .null => .scalar .null
  | .bool _ => .scalar .boolean
  | .num (.int _) => .scalar .integer
  | .num (.float _) => .scalar .number
  | .str _ => .scalar .string

def shapeItems : List Json → List Shape
  | [] => []
  | x :: items => shape x :: shapeItems items

def shapeFields : List (String × Json) → String → Option Shape
  | [], _ => none
  | (k, v) :: fields, j => if j = k then some (shape v) else shapeFields fields j

end

theorem canonicalizeItems_eq (items : List Json) :
    canonicalizeItems items = items.map canonicalize := by
  induction items with
  | nil => rfl
  | cons x items ih => rw [canonicalizeItems, ih, List.map_cons]

theorem canonicalizeFields_eq (fields : List (String × Json)) :
    canonicalizeFields fields = fields.map (fun p => (p.1, canonicalize p.2)) := by
  induction fields with
  | nil => rfl
  | cons p fields ih => rw [canonicalizeFields, ih, List.map_cons]

theorem shapeItems_eq (items : List Json) : shapeItems items = items.map shape := by
  induction items with
  | nil => rfl
  | cons x items ih => rw [shapeItems, ih, List.map_cons]

theorem shapeFields_eq (fields : List (String × Json)) (k : String) :
    shapeFields fields k = (fields.lookup k).map shape := by
  induction fields with
  | nil => rfl
  | cons p fields ih =>
    obtain ⟨j, v⟩ := p
    rw [shapeFields, lookup_cons_ite, ih]
    split <;> rfl

theorem keys_map_snd {α β : Type} (f : α → β) (d : List (String × α)) :
    keys (d.map (fun p => (p.1, f p.2))) = keys d := by
  simp [keys, Function.comp_def]

def leafOf : ScalarKind → Schema
  | .null => leaf "null" true
  | .boolean => leaf "boolean" false
  | .integer => leaf "integer" false
  | .number => leaf "number" false
  | .string => leaf "string" false

/-- A payload value is a scalar, whose schema is a leaf, or an array or an object. -/
theorem payload_cases (j : Json) :
    (∃ k, shape j = .scalar k ∧ canonicalize j = leafOf k) ∨ (∃ items, j = .arr items) ∨
      ∃ fields, j = .obj fields := by
  cases j with
  | null => exact .inl ⟨.null, rfl, rfl⟩
  | bool b => exact .inl ⟨.boolean, rfl, rfl⟩
  | num n =>
    cases n with
    | int n => exact .inl ⟨.integer, rfl, rfl⟩
    | float x => exact .inl ⟨.number, rfl, rfl⟩
  | str s => exact .inl ⟨.string, rfl, rfl⟩
  | arr items => exact .inr (.inl ⟨items, rfl⟩)
  | obj fields => exact .inr (.inr ⟨fields, rfl⟩)

/-- The canonical schema with the order of every object forgotten. -/
def normal (j : Json) : Schema := sortKeys (canonicalize j)

theorem normal_arr (items : List Json) : normal (.arr items) = .arr (items.map normal) := by
  rw [normal, canonicalize, sortKeys, canonicalizeItems_eq, sortKeysItems_eq, List.map_map]
  rfl

/-- The members of a canonicalised object, before they are sorted. -/
def normalFields (fields : List (String × Json)) : List (String × Schema) :=
  fields.map (fun p => (p.1, normal p.2))

theorem normal_obj {fields : List (String × Json)} (h : (keys fields).Nodup) :
    normal (.obj fields) = .obj (sortByKey (normalFields fields)) := by
  have hc : (keys (canonicalizeFields fields)).Nodup := by
    rwa [canonicalizeFields_eq, keys_map_snd]
  have hs := nodup_sortByKey hc
  simp only [normal, canonicalize, sortKeys, sortKeysFields_eq, JsonOf.obj.injEq]
  apply (sortByKey_eq_iff (by rwa [keys_map_snd]) (by rwa [normalFields, keys_map_snd])).mpr
  intro k
  rw [lookup_map_snd, lookup_sortByKey hc, canonicalizeFields_eq, lookup_map_snd, normalFields,
    lookup_map_snd, Option.map_map]
  rfl

theorem normal_scalar (k : ScalarKind) :
    ∃ t n, sortKeys (leafOf k) = .obj [("nullable", .bool n), ("type", .str t)] := by
  cases k <;> exact ⟨_, _, rfl⟩

theorem normal_ne_str (j : Json) (s : String) : normal j ≠ .str s := by
  obtain ⟨k, -, hk⟩ | ⟨items, rfl⟩ | ⟨fields, rfl⟩ := payload_cases j
  · obtain ⟨t, n, ht⟩ := normal_scalar k
    simp [normal, hk, ht]
  · simp [normal_arr]
  · simp [normal, canonicalize, sortKeys]

/-- No payload object imitates a leaf: a leaf holds a string where an object holds a schema. -/
theorem normal_obj_ne_leaf {fields : List (String × Json)} (h : (keys fields).Nodup)
    (k : ScalarKind) : normal (.obj fields) ≠ sortKeys (leafOf k) := by
  obtain ⟨t, n, ht⟩ := normal_scalar k
  rw [normal_obj h, ht]
  intro he
  have hl := congrArg (List.lookup "type") (JsonOf.obj.inj he)
  rw [lookup_sortByKey (by rwa [normalFields, keys_map_snd]), normalFields, lookup_map_snd] at hl
  cases hv : fields.lookup "type" with
  | none =>
    rw [hv] at hl
    cases hl
  | some v =>
    rw [hv] at hl
    exact normal_ne_str v t (Option.some.inj hl)

theorem leafOf_injective {k l : ScalarKind} (h : sortKeys (leafOf k) = sortKeys (leafOf l)) :
    k = l := by
  cases k <;> cases l <;> first | rfl | exact absurd h (by decide)

theorem payload_induct {motive : Json → Prop}
    (scalar : ∀ j k, shape j = .scalar k → canonicalize j = leafOf k → motive j)
    (arr : ∀ items, (∀ x ∈ items, motive x) → motive (.arr items))
    (obj : ∀ fields, (∀ p ∈ fields, motive p.2) → motive (.obj fields)) (j : Json) : motive j := by
  induction j using JsonOf.induct with
  | null => exact scalar _ .null rfl rfl
  | bool b => exact scalar _ .boolean rfl rfl
  | num n =>
    cases n with
    | int n => exact scalar _ .integer rfl rfl
    | float x => exact scalar _ .number rfl rfl
  | str s => exact scalar _ .string rfl rfl
  | arr items ih => exact arr items ih
  | obj fields ih => exact obj fields ih

theorem map_eq_map_of {α β γ : Type} {f : α → β} {g : α → γ} {xs ys : List α}
    (h : ∀ x ∈ xs, ∀ y ∈ ys, f x = f y → g x = g y) (he : xs.map f = ys.map f) :
    xs.map g = ys.map g := by
  induction xs generalizing ys with
  | nil =>
    obtain rfl := List.map_eq_nil_iff.mp he.symm
    rfl
  | cons x xs ih =>
    cases ys with
    | nil => cases he
    | cons y ys =>
      rw [List.map_cons, List.map_cons, List.cons.injEq] at he ⊢
      refine ⟨h x List.mem_cons_self y List.mem_cons_self he.1, ih (fun x' hx y' hy => ?_) he.2⟩
      exact h x' (List.mem_cons_of_mem _ hx) y' (List.mem_cons_of_mem _ hy)

theorem map_eq_map_congr {α β γ : Type} {f : α → β} {g : α → γ} {xs ys : List α}
    (h : ∀ x ∈ xs, ∀ y ∈ ys, f x = f y ↔ g x = g y) :
    xs.map f = ys.map f ↔ xs.map g = ys.map g :=
  ⟨map_eq_map_of fun x hx y hy => (h x hx y hy).mp, map_eq_map_of fun x hx y hy => (h x hx y hy).mpr⟩

theorem option_map_eq_of {α β γ : Type} {f : α → β} {g : α → γ} {a b : Option α}
    (h : ∀ x ∈ a, ∀ y ∈ b, f x = f y → g x = g y) (he : a.map f = b.map f) : a.map g = b.map g := by
  cases a with
  | none =>
    cases b with
    | none => rfl
    | some y => cases he
  | some x =>
    cases b with
    | none => cases he
    | some y => exact congrArg some (h x rfl y rfl (Option.some.inj he))

theorem option_map_eq_congr {α β γ : Type} {f : α → β} {g : α → γ} {a b : Option α}
    (h : ∀ x ∈ a, ∀ y ∈ b, f x = f y ↔ g x = g y) : a.map f = b.map f ↔ a.map g = b.map g :=
  ⟨option_map_eq_of fun x hx y hy => (h x hx y hy).mp,
    option_map_eq_of fun x hx y hy => (h x hx y hy).mpr⟩

/-- Canonical schemas coincide, up to the order of keys, exactly on payloads of one shape. -/
theorem normal_eq_iff (p q : Json) (hp : p.wf) (hq : q.wf) :
    normal p = normal q ↔ shape p = shape q := by
  induction p using payload_induct generalizing q with
  | scalar p k hs hc =>
    have hk : normal p = sortKeys (leafOf k) := by rw [normal, hc]
    obtain ⟨l, hsl, hcl⟩ | ⟨ys, rfl⟩ | ⟨gs, rfl⟩ := payload_cases q
    · rw [hk, normal, hcl, hs, hsl, Shape.scalar.injEq]
      exact ⟨leafOf_injective, fun h => by rw [h]⟩
    · obtain ⟨t, n, ht⟩ := normal_scalar k
      simp [normal_arr, hk, ht, hs, shape]
    · have hn := ((JsonOf.wf_obj_iff gs).mp hq).1
      rw [hs, shape, hk]
      exact ⟨fun h => absurd h.symm (normal_obj_ne_leaf hn k), fun h => by cases h⟩
  | arr xs ih =>
    obtain ⟨l, hsl, hcl⟩ | ⟨ys, rfl⟩ | ⟨gs, rfl⟩ := payload_cases q
    · have hl : normal q = sortKeys (leafOf l) := by rw [normal, hcl]
      obtain ⟨t, n, ht⟩ := normal_scalar l
      simp [normal_arr, hl, ht, hsl, shape]
    · have hxs := (JsonOf.wf_arr_iff xs).mp hp
      have hys := (JsonOf.wf_arr_iff ys).mp hq
      rw [normal_arr, normal_arr, shape, shape, shapeItems_eq, shapeItems_eq, JsonOf.arr.injEq,
        Shape.array.injEq]
      exact map_eq_map_congr fun x hx y hy => ih x hx y (hxs x hx) (hys y hy)
    · simp [normal, canonicalize, sortKeys, shape]
  | obj fs ih =>
    obtain ⟨hn, hfs⟩ := (JsonOf.wf_obj_iff fs).mp hp
    obtain ⟨l, hsl, hcl⟩ | ⟨ys, rfl⟩ | ⟨gs, rfl⟩ := payload_cases q
    · have hl : normal q = sortKeys (leafOf l) := by rw [normal, hcl]
      rw [hsl, shape, hl]
      exact ⟨fun h => absurd h (normal_obj_ne_leaf hn l), fun h => by cases h⟩
    · simp [normal, canonicalize, sortKeys, shape]
    · obtain ⟨hm, hgs⟩ := (JsonOf.wf_obj_iff gs).mp hq
      rw [normal_obj hn, normal_obj hm, JsonOf.obj.injEq,
        sortByKey_eq_iff (by rwa [normalFields, keys_map_snd]) (by rwa [normalFields, keys_map_snd]),
        shape, shape, Shape.object.injEq, funext_iff]
      refine forall_congr' fun k => ?_
      rw [normalFields, normalFields, lookup_map_snd, lookup_map_snd, shapeFields_eq, shapeFields_eq]
      exact option_map_eq_congr fun v hv w hw =>
        ih (k, v) (mem_of_lookup hv) w (hfs _ (mem_of_lookup hv)) (hgs _ (mem_of_lookup hw))

theorem fingerprint_eq_iff {sha256 : ByteArray → String} (hsha : Function.Injective sha256)
    (v w : Schema) : fingerprint sha256 v = fingerprint sha256 w ↔ sortKeys v = sortKeys w := by
  rw [← dumpsSorted_eq_iff]
  exact ⟨fun h => toUTF8_injective (hsha h), fun h => by rw [fingerprint, h, fingerprint]⟩

/-- Two payloads have one fingerprint exactly when they have one shape. -/
theorem fingerprint_eq_iff_shape_eq (sha256 : ByteArray → String)
    (hsha : Function.Injective sha256) (p q : Payload) :
    fingerprint sha256 (canonicalize p.json) = fingerprint sha256 (canonicalize q.json) ↔
      shape p.json = shape q.json := by
  rw [fingerprint_eq_iff hsha]
  exact normal_eq_iff p.json q.json p.wf q.wf

/-- The same two members in either order, with other values of the same kinds. -/
theorem fingerprint_eq_iff_shape_eq_sample :
    let p : Payload := ⟨[("id", .num (.int 1)), ("name", .str "x")], by decide⟩
    let q : Payload := ⟨[("name", .str "y"), ("id", .num (.int 7))], by decide⟩
    let sha256 := sampleSha256 [(dumpsSorted (canonicalize p.json),
      "0846952b503944dcf650744f98d3bab29d267a14441f237316b1f4ac27655191")]
    fingerprint sha256 (canonicalize p.json) = fingerprint sha256 (canonicalize q.json) ↔
      shape p.json = shape q.json :=
  fingerprint_eq_iff_shape_eq _ (sampleSha256_injective _ (by simp) (by simp)) _ _

end SchemaPilot.Canonical
