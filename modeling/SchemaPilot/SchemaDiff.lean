import SchemaPilot.PyRepr
import SchemaPilot.SchemaHash

namespace SchemaPilot.SchemaDiff

open Keyed JsonText PyRepr Digest SchemaInfer SchemaHash

inductive ChangeType where
  | removed_field | added_field | type_changed | int_to_number | number_to_int | nullable_added
  | nullable_removed | enum_expanded | enum_narrowed | enum_changed | nested_object_removed
  | array_item_type_changed
  deriving DecidableEq

inductive Severity where
  | breaking | risky | safe
  deriving DecidableEq

def Severity.rank : Severity → Nat
  | .breaking => 2
  | .risky => 1
  | .safe => 0

/-- `SEVERITY_TABLE`, which has an entry for every change type. -/
def classify : ChangeType → Severity
  | .removed_field => .breaking
  | .added_field => .safe
  | .type_changed => .breaking
  | .int_to_number => .risky
  | .number_to_int => .breaking
  | .nullable_added => .risky
  | .nullable_removed => .safe
  | .enum_expanded => .risky
  | .enum_narrowed => .safe
  | .enum_changed => .risky
  | .nested_object_removed => .breaking
  | .array_item_type_changed => .breaking

structure Diff where
  severity : Severity
  changeType : ChangeType
  path : String
  oldType : Option JsonType := none
  newType : Option JsonType := none
  oldValue : Option Json := none
  newValue : Option Json := none
  message : String
  deriving DecidableEq

/-- The keyword arguments of a message. -/
structure MsgArgs where
  oldType : Option String := none
  newType : Option String := none
  added : List String := []
  removed : List String := []

def strOpt (t : Option String) : String := t.getD "None"

section

variable (isPrintable : Char → Bool)

def msg (changeType : ChangeType) (path : String) (kwargs : MsgArgs) : String :=
  let sorted := fun values => strOfList isPrintable (sortedStrings values)
  match changeType with
  | .removed_field => "Field " ++ path ++ " was removed from the response schema."
  | .added_field => "Field " ++ path ++ " was added to the response schema."
  | .type_changed =>
    "Field " ++ path ++ " type changed from " ++ strOpt kwargs.oldType ++ " to " ++
      strOpt kwargs.newType ++ "."
  | .int_to_number =>
    "Field " ++ path ++ " type widened from integer to number " ++
      "(consumers may receive floating-point values)."
  | .number_to_int =>
    "Field " ++ path ++ " type narrowed from number to integer " ++
      "(decimal values no longer returned)."
  | .nullable_added => "Field " ++ path ++ " is now nullable (consumers may receive null)."
  | .nullable_removed => "Field " ++ path ++ " is no longer nullable (null values no longer returned)."
  | .enum_expanded => "Field " ++ path ++ " enum expanded; new values: " ++ sorted kwargs.added ++ "."
  | .enum_narrowed =>
    "Field " ++ path ++ " enum narrowed; removed values: " ++ sorted kwargs.removed ++ "."
  | .enum_changed =>
    "Field " ++ path ++ " enum values changed; " ++ "added: " ++ sorted kwargs.added ++ ", " ++
      "removed: " ++ sorted kwargs.removed ++ "."
  | .nested_object_removed => "Nested object " ++ path ++ " was removed."
  | .array_item_type_changed =>
    "Array " ++ path ++ " item type changed from " ++ strOpt kwargs.oldType ++ " to " ++
      strOpt kwargs.newType ++ "."

def enumChange (old new : Option (List String)) : Option ChangeType :=
  match old, new with
  | some oldSet, some newSet =>
    if oldSet ⊆ newSet ∧ newSet ⊆ oldSet then none
    else if oldSet ⊆ newSet then some .enum_expanded
    else if newSet ⊆ oldSet then some .enum_narrowed
    else some .enum_changed
  | _, _ => none

def pickChangeType (old new : SchemaNode) : Option ChangeType :=
  if old.type ≠ new.type then
    if old.type = .integer ∧ new.type = .number then some .int_to_number
    else if old.type = .number ∧ new.type = .integer then some .number_to_int
    else some .type_changed
  else if old.nullable ≠ new.nullable then
    some (if new.nullable then .nullable_added else .nullable_removed)
  else
    match enumChange old.enumValues new.enumValues with
    | some change => some change
    | none =>
      if old.type = .array ∧ new.type = .array ∧ old.arrayItemType ≠ new.arrayItemType then
        some .array_item_type_changed
      else none

def removedDiff (path : String) (node : SchemaNode) : Diff :=
  let changeType := if node.type = .object then .nested_object_removed else .removed_field
  { severity := classify changeType
    changeType
    path
    oldType := some node.type
    newType := none
    message := msg isPrintable changeType path {} }

def addedDiff (path : String) (node : SchemaNode) : Diff where
  severity := classify .added_field
  changeType := .added_field
  path := path
  oldType := none
  newType := some node.type
  message := msg isPrintable .added_field path {}

/-- Values of the first set that are missing in the second. -/
def setMinus (a b : Option (List String)) : List String :=
  ((a.getD []).filter (· ∉ b.getD [])).dedup

def msgArgs (changeType : ChangeType) (old new : SchemaNode) : MsgArgs :=
  let added := setMinus new.enumValues old.enumValues
  let removed := setMinus old.enumValues new.enumValues
  let kwargs : MsgArgs := { oldType := some old.type.text, newType := some new.type.text }
  match changeType with
  | .enum_expanded => { kwargs with added }
  | .enum_narrowed => { kwargs with removed }
  | .enum_changed => { kwargs with added, removed }
  | .array_item_type_changed =>
    { kwargs with oldType := old.arrayItemType, newType := new.arrayItemType }
  | _ => kwargs

def changedDiff (path : String) (old new : SchemaNode) : Option Diff :=
  (pickChangeType old new).map (fun changeType => {
    severity := classify changeType
    changeType
    path
    oldType := some old.type
    newType := some new.type
    oldValue := old.exampleValue
    newValue := new.exampleValue
    message := msg isPrintable changeType path (msgArgs changeType old new) })

def diffSchemas (old new : List SchemaNode) : List Diff :=
  let oldByPath := byPath old
  let newByPath := byPath new
  let removed := sortedStrings ((keys oldByPath).filter (· ∉ keys newByPath))
  let added := sortedStrings ((keys newByPath).filter (· ∉ keys oldByPath))
  let common := sortedStrings ((keys oldByPath).filter (· ∈ keys newByPath))
  removed.filterMap (fun path => (oldByPath.lookup path).map (removedDiff isPrintable path)) ++
    added.filterMap (fun path => (newByPath.lookup path).map (addedDiff isPrintable path)) ++
    common.filterMap (fun path =>
      (oldByPath.lookup path).bind fun old =>
        (newByPath.lookup path).bind fun new => changedDiff isPrintable path old new)

end

/-- What the diff compares of two nodes of one path. -/
structure Unchanged (old new : SchemaNode) : Prop where
  type : old.type = new.type
  nullable : old.nullable = new.nullable
  enum : ∀ a ∈ old.enumValues, ∀ b ∈ new.enumValues, a ⊆ b ∧ b ⊆ a
  item : old.type = .array → old.arrayItemType = new.arrayItemType

theorem enumChange_eq_none_iff (old new : Option (List String)) :
    enumChange old new = none ↔ ∀ a ∈ old, ∀ b ∈ new, a ⊆ b ∧ b ⊆ a := by
  cases old with
  | none => simp [enumChange]
  | some a =>
    cases new with
    | none => simp [enumChange]
    | some b =>
      simp only [enumChange, Option.mem_def, Option.some.injEq, forall_eq']
      split_ifs with h <;> simp [h]

theorem pickChangeType_eq_none_iff (old new : SchemaNode) :
    pickChangeType old new = none ↔ Unchanged old new := by
  rw [pickChangeType]
  split
  · next h =>
    refine ⟨fun he => ?_, fun hu => absurd hu.type h⟩
    split_ifs at he
  · next ht =>
    rw [not_not] at ht
    split
    · next h => exact ⟨nofun, fun hu => absurd hu.nullable h⟩
    · next hn =>
      rw [not_not] at hn
      cases he : enumChange old.enumValues new.enumValues with
      | some change =>
        refine ⟨nofun, fun hu => ?_⟩
        rw [(enumChange_eq_none_iff _ _).mpr hu.enum] at he
        cases he
      | none =>
        have hset := (enumChange_eq_none_iff _ _).mp he
        dsimp only
        split
        · next ha => exact ⟨nofun, fun hu => absurd (hu.item ha.1) ha.2.2⟩
        · next ha =>
          refine ⟨fun _ => ⟨ht, hn, hset, fun hold => ?_⟩, fun _ => rfl⟩
          by_contra hne
          exact ha ⟨hold, ht ▸ hold, hne⟩

/-- Both sides have no node, or nodes that the diff takes for unchanged. -/
def SameAt : Option SchemaNode → Option SchemaNode → Prop
  | none, none => True
  | some old, some new => Unchanged old new
  | _, _ => False

/-- The hashed fields that the diff leaves out: `required`, whether there is an enum at
all, and the item type of what is not an array on both sides. -/
def SameUnreported : Option SchemaNode → Option SchemaNode → Prop
  | some old, some new =>
    old.required = new.required ∧ old.enumValues.isSome = new.enumValues.isSome ∧
      old.arrayItemType = new.arrayItemType
  | _, _ => True

theorem changedDiff_eq_none_iff (isPrintable : Char → Bool) (path : String) (old new : SchemaNode) :
    changedDiff isPrintable path old new = none ↔ Unchanged old new := by
  rw [changedDiff, Option.map_eq_none_iff, pickChangeType_eq_none_iff]

theorem mem_sortedStrings (xs : List String) (x : String) : x ∈ sortedStrings xs ↔ x ∈ xs :=
  (List.perm_insertionSort _ xs).mem_iff

theorem filterMap_onlyIn_eq_nil_iff (d e : List (String × SchemaNode))
    (f : String → SchemaNode → Diff) :
    (sortedStrings ((keys d).filter (· ∉ keys e))).filterMap
        (fun path => (d.lookup path).map (f path)) = [] ↔
      ∀ path, (d.lookup path).isSome → (e.lookup path).isSome := by
  simp only [List.filterMap_eq_nil_iff, mem_sortedStrings, List.mem_filter, decide_eq_true_eq,
    ← lookup_isSome_iff_mem_keys, Option.map_eq_none_iff, and_imp]
  refine forall_congr' fun path => imp_congr_right fun h => ?_
  obtain ⟨n, hn⟩ := Option.isSome_iff_exists.mp h
  simp [hn]

/-- The diff is empty when both sides agree, as far as it looks, at every path. -/
theorem diffSchemas_eq_nil_iff (isPrintable : Char → Bool) (old new : List SchemaNode) :
    diffSchemas isPrintable old new = [] ↔
      ∀ path, SameAt ((byPath old).lookup path) ((byPath new).lookup path) := by
  simp only [diffSchemas, List.append_eq_nil_iff, filterMap_onlyIn_eq_nil_iff]
  simp only [List.filterMap_eq_nil_iff, mem_sortedStrings, List.mem_filter, decide_eq_true_eq,
    ← lookup_isSome_iff_mem_keys, ← forall_and]
  refine forall_congr' fun path => ?_
  cases (byPath old).lookup path with
  | none => cases (byPath new).lookup path <;> simp [SameAt]
  | some a =>
    cases (byPath new).lookup path with
    | none => simp [SameAt]
    | some b => simp [SameAt, changedDiff_eq_none_iff]

theorem lookup_byPath_inferSchema {data : Json} {path : String} {n : SchemaNode}
    (h : (byPath (inferSchema data)).lookup path = some n) : n ∈ inferSchema data ∧ n.path = path := by
  have hk : keys ((inferSchema data).map (fun n => (n.path, n))) =
      (inferSchema data).map SchemaNode.path := by simp [keys, Function.comp_def]
  rw [byPath, lookup_update_nil (by rw [hk]; exact nodup_inferSchema data)] at h
  obtain ⟨m, hm, he⟩ := List.mem_map.mp (mem_of_lookup h)
  obtain ⟨rfl, rfl⟩ := Prod.mk.inj he
  exact ⟨hm, rfl⟩

theorem eq_of_subset_of_sorted {xs ys : List String} (hx : xs.Nodup ∧ xs.Pairwise (· ≤ ·))
    (hy : ys.Nodup ∧ ys.Pairwise (· ≤ ·)) (h : xs ⊆ ys ∧ ys ⊆ xs) : xs = ys := by
  have hp : xs.Perm ys := (List.perm_ext_iff_of_nodup hx.1 hy.1).mpr fun a => ⟨@h.1 a, @h.2 a⟩
  exact hp.eq_of_pairwise (fun a b _ _ => le_antisymm) hx.2 hy.2

theorem enumValues_eq {v w : Json} {m n : SchemaNode} (hm : m ∈ inferSchema v)
    (hn : n ∈ inferSchema w) (hs : m.enumValues.isSome = n.enumValues.isSome)
    (he : ∀ a ∈ m.enumValues, ∀ b ∈ n.enumValues, a ⊆ b ∧ b ⊆ a) : m.enumValues = n.enumValues := by
  cases ha : m.enumValues with
  | none =>
    cases hb : n.enumValues with
    | none => rfl
    | some b => simp [ha, hb] at hs
  | some a =>
    cases hb : n.enumValues with
    | none => simp [ha, hb] at hs
    | some b =>
      rw [eq_of_subset_of_sorted (enumValues_inferSchema hm ha) (enumValues_inferSchema hn hb)
        (he a ha b hb)]

/-- For inferred nodes the hashed fields are those the diff compares and those it leaves out. -/
theorem structure_eq_iff {v w : Json} {path : String} {m n : Option SchemaNode}
    (hm : (byPath (inferSchema v)).lookup path = m) (hn : (byPath (inferSchema w)).lookup path = n) :
    m.map structuralProjection = n.map structuralProjection ↔
      SameAt m n ∧ SameUnreported m n := by
  cases m with
  | none => cases n <;> simp [SameAt, SameUnreported]
  | some a =>
    cases n with
    | none => simp [SameAt]
    | some b =>
      obtain ⟨hma, hpa⟩ := lookup_byPath_inferSchema hm
      obtain ⟨hmb, hpb⟩ := lookup_byPath_inferSchema hn
      simp only [Option.map_some, Option.some.injEq, structuralProjection_eq_iff, SameAt,
        SameUnreported]
      constructor
      · rintro ⟨-, ht, hr, hnull, hi, he⟩
        refine ⟨⟨ht, hnull, fun x hx y hy => ?_, fun _ => hi⟩, hr, by rw [he], hi⟩
        rw [he] at hx
        obtain rfl : x = y := Option.some.inj (hx.symm.trans hy)
        exact ⟨List.Subset.refl _, List.Subset.refl _⟩
      · rintro ⟨hu, hr, he, hi⟩
        exact ⟨hpa.trans hpb.symm, hu.type, hr, hu.nullable, hi, enumValues_eq hma hmb he hu.enum⟩

/-- On inferred schemas the hash is equal exactly when the diff is empty and the fields
the diff leaves out agree too. So an unchanged hash means no diff, while a hash may change
without one. -/
theorem hash_eq_iff_diff_eq_nil (sha256 : ByteArray → String) (hsha : Function.Injective sha256)
    (isPrintable : Char → Bool) (v w : Json) :
    let old := inferSchema v
    let new := inferSchema w
    (stableSchemaHash sha256 old = stableSchemaHash sha256 new ↔ SameStructure old new) ∧
    (diffSchemas isPrintable old new = [] ↔
      ∀ path, SameAt ((byPath old).lookup path) ((byPath new).lookup path)) ∧
    (stableSchemaHash sha256 old = stableSchemaHash sha256 new ↔
      diffSchemas isPrintable old new = [] ∧
        ∀ path, SameUnreported ((byPath old).lookup path) ((byPath new).lookup path)) := by
  intro old new
  have hhash : stableSchemaHash sha256 old = stableSchemaHash sha256 new ↔ SameStructure old new :=
    stableSchemaHash_eq_iff hsha (nodup_inferSchema v) (nodup_inferSchema w)
  refine ⟨hhash, diffSchemas_eq_nil_iff isPrintable old new, ?_⟩
  rw [hhash, diffSchemas_eq_nil_iff, ← forall_and]
  exact forall_congr' fun path => structure_eq_iff rfl rfl

theorem hash_eq_iff_diff_eq_nil_widened :
    let v : Json := .obj [("score", .num (.int 1))]
    let w : Json := .obj [("score", .num (.float ⟨"1.5", by decide⟩))]
    let old := inferSchema v
    let new := inferSchema w
    let sha256 := sampleSha256 [
      (dumpsSorted (.arr (projection old)), "4dd42f2b790be8cd5ad8f6c73893f64c179fd11e91783c81e1e2853c5335e700"),
      (dumpsSorted (.arr (projection new)), "7dfac0939ff9e552bf88a973bbe55b77cc864139796a6b9b799f5c9dfc0fc663")]
    stableSchemaHash sha256 old = stableSchemaHash sha256 new ↔
      diffSchemas (fun _ => true) old new = [] ∧
        ∀ path, SameUnreported ((byPath old).lookup path) ((byPath new).lookup path) :=
  (hash_eq_iff_diff_eq_nil _ (sampleSha256_injective _ (by simp) (by simp)) _ _ _).2.2

/-- A field that some elements of an array stop having changes the hash, not the diff. -/
theorem diff_eq_nil_required_dropped :
    let v : Json := .obj [("users", .arr [
      .obj [("id", .num (.int 1)), ("n", .num (.int 1))],
      .obj [("id", .num (.int 2)), ("n", .num (.int 2))]])]
    let w : Json := .obj [("users", .arr [
      .obj [("id", .num (.int 1)), ("n", .num (.int 1))],
      .obj [("id", .num (.int 2))]])]
    let old := inferSchema v
    let new := inferSchema w
    let sha256 := sampleSha256 [
      (dumpsSorted (.arr (projection old)), "d2dc55c4b8c88caf8ff2f7900536e314f8a009cf4bc58c0287600d32986f085e"),
      (dumpsSorted (.arr (projection new)), "d7a6b72c6cd1c27e4c5aa7e3095b03e0f8537db955cabb586d711847ec109b0d")]
    ¬(diffSchemas (fun _ => true) old new = [] ↔
      stableSchemaHash sha256 old = stableSchemaHash sha256 new) := by
  intro v w old new sha256 h
  have hsha : Function.Injective sha256 := sampleSha256_injective _ (by simp) (by simp)
  have hdiff : diffSchemas (fun _ => true) old new = [] := by decide
  have hs := (stableSchemaHash_eq_iff hsha (nodup_inferSchema v) (nodup_inferSchema w)).mp (h.mp hdiff)
  have hn := hs "users[*].n"
  revert hn
  decide

end SchemaPilot.SchemaDiff
