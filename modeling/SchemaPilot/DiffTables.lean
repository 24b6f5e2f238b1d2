import SchemaPilot.SchemaDiffJoin

namespace SchemaPilot.DiffTables

open Keyed OuterJoin SchemaInfer SchemaHash SchemaDiff SchemaDiffJoin

def ChangeType.text : ChangeType → String
  | .removed_field => "removed_field"
  | .added_field => "added_field"
  | .type_changed => "type_changed"
  | .int_to_number => "int_to_number"
  | .number_to_int => "number_to_int"
  | .nullable_added => "nullable_added"
  | .nullable_removed => "nullable_removed"
  | .enum_expanded => "enum_expanded"
  | .enum_narrowed => "enum_narrowed"
  | .enum_changed => "enum_changed"
  | .nested_object_removed => "nested_object_removed"
  | .array_item_type_changed => "array_item_type_changed"

def SEVERITY_TABLE : List (String × Severity) := [
  ("removed_field", .breaking),
  ("added_field", .safe),
  ("type_changed", .breaking),
  ("int_to_number", .risky),
  ("number_to_int", .breaking),
  ("nullable_added", .risky),
  ("nullable_removed", .safe),
  ("enum_expanded", .risky),
  ("enum_narrowed", .safe),
  ("enum_changed", .risky),
  ("nested_object_removed", .breaking),
  ("array_item_type_changed", .breaking)]

inductive LookupError where
  | KeyError (key : String)
  | ValueError (message : String)
  deriving DecidableEq

/-- `classify`, which looks the name of a change up. -/
def classifyName (changeType : String) : Except LookupError Severity :=
  match SEVERITY_TABLE.lookup changeType with
  | some severity => .ok severity
  | none => .error (.ValueError ("unknown change_type: " ++ changeType))

/-- `d[key]`. -/
def item {α : Type} (d : List (String × α)) (key : String) : Except LookupError α :=
  match d.lookup key with
  | some a => .ok a
  | none => .error (.KeyError key)

section

variable (isPrintable : Char → Bool)

/-- The dict that `_msg` makes before it takes one of the texts. -/
def templates (path : String) (kwargs : MsgArgs) : List (String × String) := [
  ("removed_field", msg isPrintable .removed_field path kwargs),
  ("added_field", msg isPrintable .added_field path kwargs),
  ("type_changed", msg isPrintable .type_changed path kwargs),
  ("int_to_number", msg isPrintable .int_to_number path kwargs),
  ("number_to_int", msg isPrintable .number_to_int path kwargs),
  ("nullable_added", msg isPrintable .nullable_added path kwargs),
  ("nullable_removed", msg isPrintable .nullable_removed path kwargs),
  ("enum_expanded", msg isPrintable .enum_expanded path kwargs),
  ("enum_narrowed", msg isPrintable .enum_narrowed path kwargs),
  ("enum_changed", msg isPrintable .enum_changed path kwargs),
  ("nested_object_removed", msg isPrintable .nested_object_removed path kwargs),
  ("array_item_type_changed", msg isPrintable .array_item_type_changed path kwargs)]

def lookUpRemoved (path : String) (node : SchemaNode) : Except LookupError Diff := do
  let changeType := if node.type = .object then .nested_object_removed else .removed_field
  let severity ← classifyName (ChangeType.text changeType)
  let message ← item (templates isPrintable path {}) (ChangeType.text changeType)
  return { severity, changeType, path, oldType := some node.type, newType := none, message }

def lookUpAdded (path : String) (node : SchemaNode) : Except LookupError Diff := do
  let severity ← classifyName (ChangeType.text .added_field)
  let message ← item (templates isPrintable path {}) (ChangeType.text .added_field)
  return { severity, changeType := .added_field, path, oldType := none, newType := some node.type, message }

def lookUpChanged (path : String) (old new : SchemaNode) : Except LookupError (Option Diff) :=
  match pickChangeType old new with
  | none => .ok none
  | some changeType => do
    let severity ← classifyName (ChangeType.text changeType)
    let message ← item (templates isPrintable path (msgArgs changeType old new)) (ChangeType.text changeType)
    return some {
      severity
      changeType
      path
      oldType := some old.type
      newType := some new.type
      oldValue := old.exampleValue
      newValue := new.exampleValue
      message }

/-- `diff_schemas` with every lookup it makes, each of which may raise. -/
def lookUpDiffs (old new : List SchemaNode) : Except LookupError (List Diff) := do
  let oldByPath := byPath old
  let newByPath := byPath new
  let removed ← (onlyKeys oldByPath newByPath).mapM fun path => do
    lookUpRemoved isPrintable path (← item oldByPath path)
  let added ← (onlyKeys newByPath oldByPath).mapM fun path => do
    lookUpAdded isPrintable path (← item newByPath path)
  let changed ← (commonKeys oldByPath newByPath).mapM fun path => do
    lookUpChanged isPrintable path (← item oldByPath path) (← item newByPath path)
  return removed ++ added ++ changed.reduceOption

theorem lookup_severityTable (changeType : ChangeType) :
    SEVERITY_TABLE.lookup (ChangeType.text changeType) = some (classify changeType) := by
  cases changeType <;> rfl

theorem lookup_templates (path : String) (kwargs : MsgArgs) (changeType : ChangeType) :
    (templates isPrintable path kwargs).lookup (ChangeType.text changeType) =
      some (msg isPrintable changeType path kwargs) := by
  cases changeType <;> rfl

theorem classifyName_text (changeType : ChangeType) :
    classifyName (ChangeType.text changeType) = .ok (classify changeType) := by
  rw [classifyName, lookup_severityTable]

theorem item_templates (path : String) (kwargs : MsgArgs) (changeType : ChangeType) :
    item (templates isPrintable path kwargs) (ChangeType.text changeType) =
      .ok (msg isPrintable changeType path kwargs) := by
  rw [item, lookup_templates]

theorem lookUpRemoved_eq (path : String) (node : SchemaNode) :
    lookUpRemoved isPrintable path node = .ok (removedDiff isPrintable path node) := by
  simp only [lookUpRemoved, classifyName_text, item_templates]
  rfl

theorem lookUpAdded_eq (path : String) (node : SchemaNode) :
    lookUpAdded isPrintable path node = .ok (addedDiff isPrintable path node) := by
  simp only [lookUpAdded, classifyName_text, item_templates]
  rfl

theorem lookUpChanged_eq (path : String) (old new : SchemaNode) :
    lookUpChanged isPrintable path old new = .ok (changedDiff isPrintable path old new) := by
  rw [lookUpChanged, changedDiff]
  cases pickChangeType old new with
  | none => rfl
  | some changeType =>
    simp only [classifyName_text, item_templates]
    rfl

end

section MapM

variable {κ γ ε : Type} {ks : List κ} {f : κ → Except ε γ}

theorem mapM_eq_map {g : κ → γ} (h : ∀ k ∈ ks, f k = .ok (g k)) : ks.mapM f = .ok (ks.map g) := by
  induction ks with
  | nil => rfl
  | cons k ks ih =>
    obtain ⟨hk, hks⟩ := List.forall_mem_cons.mp h
    rw [List.mapM_cons, hk, ih hks]
    rfl

theorem reduceOption_map (g : κ → Option γ) (ks : List κ) :
    (ks.map g).reduceOption = ks.filterMap g := by
  change (ks.map g).filterMap id = ks.filterMap g
  rw [List.filterMap_map, Function.id_comp]

theorem mapM_eq_filterMap {g : κ → Option γ} (h : ∀ k ∈ ks, ∃ c, f k = .ok c ∧ g k = some c) :
    ks.mapM f = .ok (ks.filterMap g) := by
  induction ks with
  | nil => rfl
  | cons k ks ih =>
    obtain ⟨⟨c, hf, hg⟩, hks⟩ := List.forall_mem_cons.mp h
    rw [List.mapM_cons, hf, ih hks, List.filterMap_cons_some hg]
    rfl

end MapM

section Diffs

variable {α : Type}

theorem item_of_lookup {d : List (String × α)} {key : String} {a : α} (h : d.lookup key = some a) :
    item d key = .ok a := by
  rw [item, h]

theorem exists_lookup {d : List (String × α)} {key : String} (h : key ∈ keys d) :
    ∃ a, d.lookup key = some a :=
  Option.isSome_iff_exists.mp ((lookup_isSome_iff_mem_keys d key).mpr h)

/-- No lookup raises. -/
theorem lookUpDiffs_eq (isPrintable : Char → Bool) (old new : List SchemaNode) :
    lookUpDiffs isPrintable old new = .ok (diffSchemas isPrintable old new) := by
  rw [diffSchemas_eq, Join.join, lookUpDiffs]
  have hremoved : ((onlyKeys (byPath old) (byPath new)).mapM fun path => do
      lookUpRemoved isPrintable path (← item (byPath old) path)) =
      .ok ((nodeJoin isPrintable).leftPart (byPath old) (byPath new)) := by
    apply mapM_eq_filterMap
    intro path hpath
    obtain ⟨node, hnode⟩ := exists_lookup ((mem_onlyKeys _ _).mp hpath).1
    refine ⟨removedDiff isPrintable path node, ?_, ?_⟩
    · rw [item_of_lookup hnode]
      exact lookUpRemoved_eq isPrintable path node
    · rw [hnode]
      rfl
  have hadded : ((onlyKeys (byPath new) (byPath old)).mapM fun path => do
      lookUpAdded isPrintable path (← item (byPath new) path)) =
      .ok ((nodeJoin isPrintable).rightPart (byPath old) (byPath new)) := by
    apply mapM_eq_filterMap
    intro path hpath
    obtain ⟨node, hnode⟩ := exists_lookup ((mem_onlyKeys _ _).mp hpath).1
    refine ⟨addedDiff isPrintable path node, ?_, ?_⟩
    · rw [item_of_lookup hnode]
      exact lookUpAdded_eq isPrintable path node
    · rw [hnode]
      rfl
  have hchanged : ((commonKeys (byPath old) (byPath new)).mapM fun path => do
      lookUpChanged isPrintable path (← item (byPath old) path) (← item (byPath new) path)) =
      .ok ((commonKeys (byPath old) (byPath new)).map fun path => ((byPath old).lookup path).bind fun o =>
        ((byPath new).lookup path).bind fun n => (nodeJoin isPrintable).both path o n) := by
    apply mapM_eq_map
    intro path hpath
    obtain ⟨o, ho⟩ := exists_lookup ((mem_commonKeys _ _).mp hpath).1
    obtain ⟨n, hn⟩ := exists_lookup ((mem_commonKeys _ _).mp hpath).2
    rw [item_of_lookup ho, item_of_lookup hn, ho, hn]
    exact lookUpChanged_eq isPrintable path o n
  simp only [hremoved, hadded, hchanged]
  rw [Join.bothPart, ← reduceOption_map]
  rfl

/-- Some attribute that the diff compares differs. -/
def Differ (old new : SchemaNode) : Prop :=
  old.type ≠ new.type ∨ old.nullable ≠ new.nullable ∨
    (∃ a ∈ old.enumValues, ∃ b ∈ new.enumValues, ¬(a ⊆ b ∧ b ⊆ a)) ∨
    old.type = .array ∧ new.type = .array ∧ old.arrayItemType ≠ new.arrayItemType

theorem changedDiff_isSome_iff (isPrintable : Char → Bool) (path : String) (old new : SchemaNode) :
    (changedDiff isPrintable path old new).isSome ↔ Differ old new := by
  rw [Option.isSome_iff_ne_none, ne_eq, changedDiff_eq_none_iff, Differ]
  constructor
  · intro h
    by_contra hno
    obtain ⟨htype, hrest⟩ := not_or.mp hno
    obtain ⟨hnull, hrest⟩ := not_or.mp hrest
    obtain ⟨henum, hitem⟩ := not_or.mp hrest
    refine h ⟨not_not.mp htype, not_not.mp hnull, fun a ha b hb => ?_, fun harray => ?_⟩
    · by_contra hne
      exact henum ⟨a, ha, b, hb, hne⟩
    · by_contra hne
      exact hitem ⟨harray, not_not.mp htype ▸ harray, hne⟩
  · rintro (h | h | ⟨a, ha, b, hb, h⟩ | ⟨ha, -, h⟩) hu
    · exact h hu.type
    · exact h hu.nullable
    · exact h (hu.enum a ha b hb)
    · exact h (hu.item ha)

theorem severity_eq {isPrintable : Char → Bool} {old new : List SchemaNode} {d : Diff}
    (h : d ∈ diffSchemas isPrintable old new) : classify d.changeType = d.severity := by
  have hat := (mem_diffSchemas isPrintable old new d).mp h
  rw [diffAt] at hat
  cases ho : (byPath old).lookup d.path with
  | none =>
    cases hn : (byPath new).lookup d.path with
    | none =>
      rw [ho, hn] at hat
      cases hat
    | some n =>
      rw [ho, hn] at hat
      have hd : some (addedDiff isPrintable d.path n) = some d := hat
      rw [← Option.some.inj hd]
      rfl
  | some o =>
    cases hn : (byPath new).lookup d.path with
    | none =>
      rw [ho, hn] at hat
      have hd : some (removedDiff isPrintable d.path o) = some d := hat
      rw [← Option.some.inj hd]
      rfl
    | some n =>
      rw [ho, hn] at hat
      obtain ⟨changeType, -, hd⟩ := Option.map_eq_some_iff.mp hat
      rw [← hd]

section Complete

variable {nodes : List SchemaNode}

theorem lookup_byPath_iff (h : (nodes.map SchemaNode.path).Nodup) {path : String}
    {node : SchemaNode} :
    (byPath nodes).lookup path = some node ↔ node ∈ nodes ∧ node.path = path := by
  have hkeys : keys (nodes.map fun n => (n.path, n)) = nodes.map SchemaNode.path := by
    rw [keys, List.map_map]
    rfl
  rw [byPath, lookup_update_nil (hkeys ▸ h), lookup_eq_some_iff_mem (hkeys ▸ h), List.mem_map]
  constructor
  · rintro ⟨n, hn, heq⟩
    cases heq
    exact ⟨hn, rfl⟩
  · rintro ⟨hn, rfl⟩
    exact ⟨node, hn, rfl⟩

theorem mem_keys_byPath (h : (nodes.map SchemaNode.path).Nodup) (path : String) :
    path ∈ keys (byPath nodes) ↔ path ∈ nodes.map SchemaNode.path := by
  rw [← lookup_isSome_iff_mem_keys, Option.isSome_iff_exists, List.mem_map]
  exact exists_congr fun node => lookup_byPath_iff h

variable (isPrintable : Char → Bool) {old new : List SchemaNode}
  (hold : (old.map SchemaNode.path).Nodup) (hnew : (new.map SchemaNode.path).Nodup)

include hold hnew

theorem mem_removedPart (path : String) :
    path ∈ ((nodeJoin isPrintable).leftPart (byPath old) (byPath new)).map Diff.path ↔
      path ∈ old.map SchemaNode.path ∧ path ∉ new.map SchemaNode.path := by
  rw [Join.mem_map_leftPart (files_nodeJoin isPrintable), mem_keys_byPath hnew, ← mem_keys_byPath hold]
  refine and_congr_right fun hpath => and_iff_left ?_
  obtain ⟨node, hnode⟩ := exists_lookup hpath
  rw [hnode]
  rfl

theorem mem_addedPart (path : String) :
    path ∈ ((nodeJoin isPrintable).rightPart (byPath old) (byPath new)).map Diff.path ↔
      path ∈ new.map SchemaNode.path ∧ path ∉ old.map SchemaNode.path := by
  rw [Join.mem_map_rightPart (files_nodeJoin isPrintable), mem_keys_byPath hold, ← mem_keys_byPath hnew]
  refine and_congr_right fun hpath => and_iff_left ?_
  obtain ⟨node, hnode⟩ := exists_lookup hpath
  rw [hnode]
  rfl

theorem mem_changedPart (path : String) :
    path ∈ ((nodeJoin isPrintable).bothPart (byPath old) (byPath new)).map Diff.path ↔
      ∃ o ∈ old, ∃ n ∈ new, o.path = path ∧ n.path = path ∧ Differ o n := by
  rw [Join.mem_map_bothPart (files_nodeJoin isPrintable)]
  constructor
  · rintro ⟨o, n, ho, hn, hsome⟩
    obtain ⟨ho, hopath⟩ := (lookup_byPath_iff hold).mp ho
    obtain ⟨hn, hnpath⟩ := (lookup_byPath_iff hnew).mp hn
    exact ⟨o, ho, n, hn, hopath, hnpath, (changedDiff_isSome_iff isPrintable path o n).mp hsome⟩
  · rintro ⟨o, ho, n, hn, hopath, hnpath, hdiffer⟩
    exact ⟨o, n, (lookup_byPath_iff hold).mpr ⟨ho, hopath⟩, (lookup_byPath_iff hnew).mpr ⟨hn, hnpath⟩,
      (changedDiff_isSome_iff isPrintable path o n).mpr hdiffer⟩

end Complete

/-- The diffs are found without an exception: one for every path that only one side has, or
whose nodes differ, and no other, in three parts, each in path order. -/
theorem diffSchemas_complete (isPrintable : Char → Bool) (old new : List SchemaNode)
    (hold : (old.map SchemaNode.path).Nodup) (hnew : (new.map SchemaNode.path).Nodup) :
    ∃ removed added changed,
      lookUpDiffs isPrintable old new = .ok (removed ++ added ++ changed) ∧
      (∀ path, path ∈ removed.map Diff.path ↔
        path ∈ old.map SchemaNode.path ∧ path ∉ new.map SchemaNode.path) ∧
      (∀ path, path ∈ added.map Diff.path ↔
        path ∈ new.map SchemaNode.path ∧ path ∉ old.map SchemaNode.path) ∧
      (∀ path, path ∈ changed.map Diff.path ↔
        ∃ o ∈ old, ∃ n ∈ new, o.path = path ∧ n.path = path ∧ Differ o n) ∧
      (removed.map Diff.path).Pairwise (· < ·) ∧ (added.map Diff.path).Pairwise (· < ·) ∧
      (changed.map Diff.path).Pairwise (· < ·) ∧
      ((removed ++ added ++ changed).map Diff.path).Nodup ∧
      ∀ d ∈ removed ++ added ++ changed,
        SEVERITY_TABLE.lookup (ChangeType.text d.changeType) = some d.severity := by
  have hfiles := files_nodeJoin isPrintable
  have hsorted := Join.sorted_leftPart (e := byPath new) hfiles (nodup_byPath old)
  have hsorted' := Join.sorted_rightPart (d := byPath old) hfiles (nodup_byPath new)
  have hsorted'' := Join.sorted_bothPart (e := byPath new) hfiles (nodup_byPath old)
  refine ⟨_, _, _, (lookUpDiffs_eq isPrintable old new).trans (congrArg _ (diffSchemas_eq isPrintable old new)),
    mem_removedPart isPrintable hold hnew, mem_addedPart isPrintable hold hnew,
    mem_changedPart isPrintable hold hnew, hsorted, hsorted', hsorted'', ?_, fun d hd => ?_⟩
  · rw [List.map_append, List.map_append]
    refine List.nodup_append.mpr ⟨List.nodup_append.mpr ⟨nodup_of_sorted hsorted, nodup_of_sorted hsorted', ?_⟩,
      nodup_of_sorted hsorted'', ?_⟩
    · rintro path hpath _ hpath' rfl
      exact ((mem_addedPart isPrintable hold hnew path).mp hpath').2
        ((mem_removedPart isPrintable hold hnew path).mp hpath).1
    · rintro path hpath _ hpath' rfl
      obtain ⟨o, ho, n, hn, hopath, hnpath, -⟩ := (mem_changedPart isPrintable hold hnew path).mp hpath'
      obtain hpath | hpath := List.mem_append.mp hpath
      · exact ((mem_removedPart isPrintable hold hnew path).mp hpath).2 (hnpath ▸ List.mem_map_of_mem hn)
      · exact ((mem_addedPart isPrintable hold hnew path).mp hpath).2 (hopath ▸ List.mem_map_of_mem ho)
  · have hd : d ∈ (nodeJoin isPrintable).join (byPath old) (byPath new) := hd
    rw [← diffSchemas_eq] at hd
    rw [lookup_severityTable, severity_eq hd]

end Diffs

theorem diffSchemas_complete_score :
    let old : List SchemaNode := [{ path := "score", type := .integer }, { path := "id", type := .string }]
    let new : List SchemaNode := [{ path := "note", type := .object }, { path := "score", type := .number }]
    ∃ removed added changed,
      lookUpDiffs (fun _ => true) old new = .ok (removed ++ added ++ changed) ∧
        "id" ∈ removed.map Diff.path ∧ "note" ∈ added.map Diff.path ∧ "score" ∈ changed.map Diff.path := by
  intro old new
  obtain ⟨removed, added, changed, hdiffs, hremoved, hadded, hchanged, -⟩ :=
    diffSchemas_complete (fun _ => true) old new (by decide) (by decide)
  refine ⟨removed, added, changed, hdiffs, (hremoved "id").mpr (by decide), (hadded "note").mpr (by decide),
    (hchanged "score").mpr ⟨_, List.mem_cons_self, _, List.mem_cons_of_mem _ List.mem_cons_self, rfl, rfl, ?_⟩⟩
  exact .inl (by decide)

end SchemaPilot.DiffTables
