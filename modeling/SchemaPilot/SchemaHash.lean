import SchemaPilot.Digest
import SchemaPilot.JsonText
import SchemaPilot.SchemaInfer

namespace SchemaPilot.SchemaHash

open Keyed JsonText Digest SchemaInfer

def optional {α : Type} (f : α → Schema) : Option α → Schema
  | none => .null
  | some a => f a

def projectionFields (node : SchemaNode) : List (String × Schema) := [
  ("path", .str node.path),
  ("type", .str node.type.text),
  ("required", .bool node.required),
  ("nullable", .bool node.nullable),
  ("array_item_type", optional .str node.arrayItemType),
  ("enum_values", optional (fun values => .arr (values.map .str)) node.enumValues)]

/-- The fields of a node that its hash covers: all but the example value. -/
def structuralProjection (node : SchemaNode) : Schema := .obj (projectionFields node)

def projection (nodes : List SchemaNode) : List Schema :=
  (sortByKey (nodes.map (fun n => (n.path, structuralProjection n)))).map Prod.snd

def stableSchemaHash (sha256 : ByteArray → String) (nodes : List SchemaNode) : String :=
  sha256 (dumpsSorted (.arr (projection nodes))).toUTF8

/-- The last node of a path, as a dict keyed by path holds it. -/
def byPath (nodes : List SchemaNode) : List (String × SchemaNode) :=
  update [] (nodes.map (fun n => (n.path, n)))

/-- Two node lists agree on every hashed field of every path. -/
def SameStructure (old new : List SchemaNode) : Prop :=
  ∀ path, ((byPath old).lookup path).map structuralProjection =
    ((byPath new).lookup path).map structuralProjection

theorem text_injective {s t : JsonType} (h : s.text = t.text) : s = t := by
  cases s <;> cases t <;> first | rfl | exact absurd h (by decide)

theorem optional_injective {α : Type} {f : α → Schema} (hf : Function.Injective f)
    (hnull : ∀ a, f a ≠ .null) : Function.Injective (optional f) := by
  rintro (_ | a) (_ | b) h
  · rfl
  · exact absurd h.symm (hnull b)
  · exact absurd h (hnull a)
  · rw [hf h]

theorem structuralProjection_eq_iff (m n : SchemaNode) :
    structuralProjection m = structuralProjection n ↔
      m.path = n.path ∧ m.type = n.type ∧ m.required = n.required ∧ m.nullable = n.nullable ∧
        m.arrayItemType = n.arrayItemType ∧ m.enumValues = n.enumValues := by
  have ht : Function.Injective (optional (JsonOf.str : String → Schema)) :=
    optional_injective (fun s t h => JsonOf.str.inj h) (by simp)
  have hv : Function.Injective (optional fun values : List String => .arr (values.map .str)) := by
    refine optional_injective (fun s t h => ?_) (by simp)
    exact List.map_injective_iff.mpr (fun _ _ => JsonOf.str.inj) (JsonOf.arr.inj h)
  simp only [structuralProjection, projectionFields, JsonOf.obj.injEq, List.cons.injEq, Prod.mk.injEq, true_and,
    and_true, JsonOf.str.injEq, JsonOf.bool.injEq, ht.eq_iff, hv.eq_iff]
  exact and_congr_right fun _ => and_congr_left fun _ => ⟨text_injective, congrArg _⟩

theorem keys_projectionFields (node : SchemaNode) :
    keys (projectionFields node) =
      ["path", "type", "required", "nullable", "array_item_type", "enum_values"] := rfl

theorem nodup_projectionFields (node : SchemaNode) : (keys (projectionFields node)).Nodup := by
  rw [keys_projectionFields]
  decide

theorem sortKeys_structuralProjection (node : SchemaNode) :
    sortKeys (structuralProjection node) = .obj (sortByKey (projectionFields node)) := by
  have ht : sortKeys (optional .str node.arrayItemType) = optional .str node.arrayItemType := by
    cases node.arrayItemType <;> rfl
  have hv : sortKeys (optional (fun values : List String => .arr (values.map .str))
      node.enumValues) = optional (fun values => .arr (values.map .str)) node.enumValues := by
    cases node.enumValues with
    | none => rfl
    | some values => simp [optional, sortKeys, sortKeysItems_eq]
  simp only [structuralProjection, projectionFields, sortKeys, sortKeysFields, ht, hv]

theorem structuralProjection_eq_of_sortKeys {m n : SchemaNode}
    (h : sortKeys (structuralProjection m) = sortKeys (structuralProjection n)) :
    structuralProjection m = structuralProjection n := by
  rw [sortKeys_structuralProjection, sortKeys_structuralProjection, JsonOf.obj.injEq,
    sortByKey_eq_iff (nodup_projectionFields m) (nodup_projectionFields n)] at h
  rw [structuralProjection, structuralProjection,
    eq_of_lookup (nodup_projectionFields m) (keys_projectionFields n).symm h]

def filed (nodes : List SchemaNode) : List (String × Schema) :=
  nodes.map (fun n => (n.path, structuralProjection n))

theorem keys_filed (nodes : List SchemaNode) : keys (filed nodes) = nodes.map SchemaNode.path := by
  simp [filed, keys, Function.comp_def]

theorem mem_projection {nodes : List SchemaNode} {s : Schema} (h : s ∈ projection nodes) :
    ∃ n ∈ nodes, s = structuralProjection n := by
  obtain ⟨p, hp, rfl⟩ := List.mem_map.mp h
  obtain ⟨n, hn, rfl⟩ := List.mem_map.mp ((mem_sortByKey _ _).mp hp)
  exact ⟨n, hn, rfl⟩

/-- The path a projection starts with. -/
def pathOf : Schema → String
  | .obj ((_, .str path) :: _) => path
  | _ => ""

theorem sortByKey_filed (nodes : List SchemaNode) :
    sortByKey (filed nodes) = (projection nodes).map (fun s => (pathOf s, s)) := by
  rw [projection, List.map_map]
  refine (List.map_id _).symm.trans (List.map_congr_left fun p hp => ?_)
  obtain ⟨n, -, rfl⟩ := List.mem_map.mp ((mem_sortByKey _ _).mp hp)
  rfl

theorem lookup_byPath {nodes : List SchemaNode} (h : (nodes.map SchemaNode.path).Nodup) (path : String) :
    ((byPath nodes).lookup path).map structuralProjection = (filed nodes).lookup path := by
  have hk : keys (nodes.map (fun n => (n.path, n))) = nodes.map SchemaNode.path := by
    simp [keys, Function.comp_def]
  rw [byPath, lookup_update_nil (by rwa [hk]), ← lookup_map_snd, List.map_map]
  rfl

theorem projection_eq_iff {old new : List SchemaNode} (ho : (old.map SchemaNode.path).Nodup)
    (hn : (new.map SchemaNode.path).Nodup) : projection old = projection new ↔ SameStructure old new := by
  have hsorted : projection old = projection new ↔ sortByKey (filed old) = sortByKey (filed new) := by
    constructor
    · intro h
      rw [sortByKey_filed, sortByKey_filed, h]
    · intro h
      change (sortByKey (filed old)).map Prod.snd = (sortByKey (filed new)).map Prod.snd
      rw [h]
  rw [hsorted, sortByKey_eq_iff (by rwa [keys_filed]) (by rwa [keys_filed])]
  simp only [SameStructure, lookup_byPath ho, lookup_byPath hn]

theorem map_sortKeys_inj {xs ys : List Schema} (hx : ∀ s ∈ xs, ∃ n, s = structuralProjection n)
    (hy : ∀ s ∈ ys, ∃ n, s = structuralProjection n) (h : xs.map sortKeys = ys.map sortKeys) :
    xs = ys := by
  induction xs generalizing ys with
  | nil => exact (List.map_eq_nil_iff.mp h.symm).symm
  | cons x xs ih =>
    obtain _ | ⟨y, ys⟩ := ys
    · cases h
    obtain ⟨hxy, ht⟩ := List.cons.inj h
    obtain ⟨⟨m, rfl⟩, hxs⟩ := List.forall_mem_cons.mp hx
    obtain ⟨⟨n, rfl⟩, hys⟩ := List.forall_mem_cons.mp hy
    rw [structuralProjection_eq_of_sortKeys hxy, ih hxs hys ht]

/-- Equal hashes mean equal hashed fields, path by path. -/
theorem stableSchemaHash_eq_iff {sha256 : ByteArray → String} (hsha : Function.Injective sha256)
    {old new : List SchemaNode} (ho : (old.map SchemaNode.path).Nodup)
    (hn : (new.map SchemaNode.path).Nodup) :
    stableSchemaHash sha256 old = stableSchemaHash sha256 new ↔ SameStructure old new := by
  rw [← projection_eq_iff ho hn]
  constructor
  · intro h
    have hs := (dumpsSorted_eq_iff _ _).mp (toUTF8_injective (hsha h))
    rw [sortKeys, sortKeys, sortKeysItems_eq, sortKeysItems_eq, JsonOf.arr.injEq] at hs
    exact map_sortKeys_inj (fun s hs => (mem_projection hs).imp fun _ h => h.2)
      (fun s hs => (mem_projection hs).imp fun _ h => h.2) hs
  · intro h
    rw [stableSchemaHash, h, stableSchemaHash]

theorem lookup_byPath_eq_some_iff {nodes : List SchemaNode} (h : (nodes.map SchemaNode.path).Nodup)
    {path : String} {n : SchemaNode} :
    (byPath nodes).lookup path = some n ↔ n ∈ nodes ∧ n.path = path := by
  have hk : keys (nodes.map (fun n => (n.path, n))) = nodes.map SchemaNode.path := by
    simp [keys, Function.comp_def]
  rw [byPath, lookup_update_nil (by rwa [hk]), lookup_eq_some_iff_mem (by rwa [hk])]
  simp only [List.mem_map, Prod.mk.injEq]
  constructor
  · rintro ⟨m, hm, hpath, rfl⟩
    exact ⟨hm, hpath⟩
  · rintro ⟨hm, hpath⟩
    exact ⟨n, hm, hpath, rfl⟩

/-- The fields of a node that its structural projection keeps. -/
def hashedFields (node : SchemaNode) :
    String × JsonType × Bool × Bool × Option String × Option (List String) :=
  (node.path, node.type, node.required, node.nullable, node.arrayItemType, node.enumValues)

theorem structuralProjection_eq_iff_hashedFields (m n : SchemaNode) :
    structuralProjection m = structuralProjection n ↔ hashedFields m = hashedFields n := by
  simp only [structuralProjection_eq_iff, hashedFields, Prod.mk.injEq]

theorem sameStructure_iff {a b : List SchemaNode} (ha : (a.map SchemaNode.path).Nodup)
    (hb : (b.map SchemaNode.path).Nodup) :
    SameStructure a b ↔ {f | ∃ n ∈ a, hashedFields n = f} = {f | ∃ n ∈ b, hashedFields n = f} := by
  have hfield : ∀ {nodes : List SchemaNode}, (nodes.map SchemaNode.path).Nodup → ∀ n : SchemaNode,
      ((byPath nodes).lookup n.path).map structuralProjection = some (structuralProjection n) ↔
        ∃ m ∈ nodes, hashedFields m = hashedFields n := by
    intro nodes h n
    simp only [Option.map_eq_some_iff, lookup_byPath_eq_some_iff h,
      structuralProjection_eq_iff_hashedFields]
    constructor
    · rintro ⟨m, ⟨hm, -⟩, hf⟩
      exact ⟨m, hm, hf⟩
    · rintro ⟨m, hm, hf⟩
      exact ⟨m, ⟨hm, congrArg Prod.fst hf⟩, hf⟩
  constructor
  · intro h
    ext f
    constructor
    · rintro ⟨n, hn, rfl⟩
      exact (hfield hb n).mp (h n.path ▸ (hfield ha n).mpr ⟨n, hn, rfl⟩)
    · rintro ⟨n, hn, rfl⟩
      exact (hfield ha n).mp ((h n.path).symm ▸ (hfield hb n).mpr ⟨n, hn, rfl⟩)
  · intro h path
    ext s
    have hside : ∀ {x y : List SchemaNode}, (x.map SchemaNode.path).Nodup →
        (y.map SchemaNode.path).Nodup →
        (∀ f, (∃ n ∈ x, hashedFields n = f) → ∃ n ∈ y, hashedFields n = f) →
        ((byPath x).lookup path).map structuralProjection = some s →
          ((byPath y).lookup path).map structuralProjection = some s := by
      intro x y hx hy hxy hs
      obtain ⟨n, hl, rfl⟩ := Option.map_eq_some_iff.mp hs
      obtain ⟨hn, rfl⟩ := (lookup_byPath_eq_some_iff hx).mp hl
      exact (hfield hy n).mpr (hxy _ ⟨n, hn, rfl⟩)
    exact ⟨hside ha hb fun f hf => (Set.ext_iff.mp h f).mp hf,
      hside hb ha fun f hf => (Set.ext_iff.mp h f).mpr hf⟩

/-- The hash forgets the order of the nodes and their examples, and nothing else. -/
theorem stableSchemaHash_eq_iff_hashedFields (sha256 : ByteArray → String)
    (hsha : Function.Injective sha256) (a b : List SchemaNode)
    (ha : (a.map SchemaNode.path).Nodup) (hb : (b.map SchemaNode.path).Nodup) :
    stableSchemaHash sha256 a = stableSchemaHash sha256 b ↔
      {f | ∃ n ∈ a, hashedFields n = f} = {f | ∃ n ∈ b, hashedFields n = f} :=
  (stableSchemaHash_eq_iff hsha ha hb).trans (sameStructure_iff ha hb)

theorem stableSchemaHash_eq_iff_hashedFields_reordered :
    let id : SchemaNode := { path := "id", type := .integer }
    let status : SchemaNode :=
      { path := "status", type := .string, enumValues := some ["on", "o\"ff"] }
    let a := [id, status]
    let b := [{ status with exampleValue := some (.str "on") }, id]
    let sha256 := sampleSha256 [(dumpsSorted (.arr (projection a)),
      "264e8e0d55791b0f229d52bedf03eedb84504037a3541a21acabcbe391ee80f3")]
    stableSchemaHash sha256 a = stableSchemaHash sha256 b ↔
      {f | ∃ n ∈ a, hashedFields n = f} = {f | ∃ n ∈ b, hashedFields n = f} :=
  stableSchemaHash_eq_iff_hashedFields _ (sampleSha256_injective _ (by simp) (by simp)) _ _
    (by decide) (by decide)

end SchemaPilot.SchemaHash
